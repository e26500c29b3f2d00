import Mathlib.Logic.Function.Basic

/-!
# Runs of a system

A system is a partial step function: a state and an action give the next state, or nothing
when the action cannot happen there. `Reach` collects the states that a run gets to when
every step of it meets a condition on the state before it.
-/

namespace Lib.Run

variable {σ α : Type*} {step : σ → α → Option σ} {ok ok' : σ → α → Prop} {s t u : σ}

/-- Some run leads from `s` to the state, and all its steps meet `ok`. -/
inductive Reach (step : σ → α → Option σ) (ok : σ → α → Prop) (s : σ) : σ → Prop
  | refl : Reach step ok s s
  | tail {t u : σ} (a : α) : Reach step ok s t → ok t a → step t a = some u →
      Reach step ok s u

def anyStep (_ : σ) (_ : α) : Prop := True

/-- What holds at the start, and what each allowed step keeps, holds along the run. -/
theorem Reach.inv (I : σ → Prop) (h0 : I s)
    (hstep : ∀ t a u, I t → ok t a → step t a = some u → I u)
    (h : Reach step ok s t) : I t := by
  induction h with
  | refl => exact h0
  | tail a _ hok hs ih => exact hstep _ a _ ih hok hs

theorem Reach.mono (himp : ∀ t a, ok t a → ok' t a) (h : Reach step ok s t) :
    Reach step ok' s t := by
  induction h with
  | refl => exact .refl
  | tail a _ hok hs ih => exact .tail a ih (himp _ _ hok) hs

theorem Reach.trans (h : Reach step ok s t) (h' : Reach step ok t u) : Reach step ok s u := by
  induction h' with
  | refl => exact h
  | tail a _ hok hs ih => exact .tail a ih hok hs

/-! ## What happened on the way -/

/-- Some step of a run from `s` to the state has met `P`, with the state before it. -/
inductive Happened (step : σ → α → Option σ) (ok : σ → α → Prop) (P : σ → α → Prop) (s : σ) :
    σ → Prop
  | now {t u : σ} (a : α) : Reach step ok s t → ok t a → step t a = some u → P t a →
      Happened step ok P s u
  | later {t u : σ} (a : α) : Happened step ok P s t → ok t a → step t a = some u →
      Happened step ok P s u

/-! ## Runs given as a list of actions -/

/-- The state after the actions, if each of them can happen in turn. -/
def exec (step : σ → α → Option σ) (s : σ) : List α → Option σ
  | [] => some s
  | a :: as => (step s a).bind fun t => exec step t as

theorem exec_total (next : σ → α → σ) (s : σ) (as : List α) :
    exec (fun s a => some (next s a)) s as = some (as.foldl next s) := by
  induction as generalizing s with
  | nil => rfl
  | cons a as ih => exact ih (next s a)

def Allowed (step : σ → α → Option σ) (ok : σ → α → Prop) (s : σ) : List α → Prop
  | [] => True
  | a :: as => ok s a ∧ ∀ t ∈ step s a, Allowed step ok t as

instance Allowed.decide [∀ s a, Decidable (ok s a)] :
    ∀ (s : σ) (as : List α), Decidable (Allowed step ok s as)
  | _, [] => isTrue trivial
  | s, a :: as =>
    have (t : σ) : Decidable (Allowed step ok t as) := Allowed.decide t as
    inferInstanceAs (Decidable (ok s a ∧ ∀ t ∈ step s a, Allowed step ok t as))

theorem Allowed.cons {a : α} {as : List α} (hok : ok s a) (hs : step s a = some t)
    (h : Allowed step ok t as) : Allowed step ok s (a :: as) := by
  refine ⟨hok, fun u hu => ?_⟩
  rw [hs] at hu
  cases hu
  exact h

theorem Allowed.any (s : σ) (as : List α) : Allowed step anyStep s as := by
  induction as generalizing s with
  | nil => trivial
  | cons a as ih => exact ⟨trivial, fun t _ => ih t⟩

theorem Reach.of_exec (as : List α) (hok : Allowed step ok s as) (h : exec step s as = some t) :
    Reach step ok s t := by
  induction as generalizing s with
  | nil =>
    rw [exec, Option.some.injEq] at h
    exact h ▸ .refl
  | cons a as ih =>
    obtain ⟨t', ht', hrest⟩ := Option.bind_eq_some_iff.mp h
    exact Reach.trans (.tail a .refl hok.1 ht') (ih (hok.2 t' ht') hrest)

/-- What is lost for good by the first step that does not meet `ok`, and by no other, is there at
the end of just the runs that are allowed. `J` may be used on the way. -/
theorem allowed_iff {I J : σ → Prop} (as : List α) (hJ : ∀ s a t, J s → step s a = some t → J t)
    (hkeep : ∀ s a t, J s → I s → step s a = some t → (I t ↔ ok s a))
    (hlost : ∀ s a t, J s → ¬ I s → step s a = some t → ¬ I t) (hJs : J s) (hIs : I s)
    (h : exec step s as = some t) : I t ↔ Allowed step ok s as := by
  have hgone : ∀ (as : List α) s, J s → ¬ I s → exec step s as = some t → ¬ I t := by
    intro as
    induction as with
    | nil =>
      rintro s - hs ⟨⟩
      exact hs
    | cons a as ih =>
      intro s hJs hs h
      obtain ⟨u, hu, hrest⟩ := Option.bind_eq_some_iff.mp h
      exact ih u (hJ s a u hJs hu) (hlost s a u hJs hs hu) hrest
  induction as generalizing s with
  | nil =>
    cases h
    exact iff_of_true hIs trivial
  | cons a as ih =>
    obtain ⟨u, hu, hrest⟩ := Option.bind_eq_some_iff.mp h
    have hallowed : Allowed step ok s (a :: as) ↔ ok s a ∧ Allowed step ok u as := by
      simp [Allowed, hu]
    rw [hallowed]
    by_cases hok : ok s a
    · have hrest := ih (hJ s a u hJs hu) ((hkeep s a u hJs hIs hu).mpr hok) hrest
      exact hrest.trans (and_iff_right hok).symm
    · refine iff_of_false ?_ fun hboth => hok hboth.1
      exact hgone as u (hJ s a u hJs hu) (fun hu' => hok ((hkeep s a u hJs hIs hu).mp hu')) hrest

/-! ## The same actions from two states -/

theorem exec_rel {τ : Type*} {step' : τ → α → Option τ} {R : σ → τ → Prop} {r : τ} (as : List α)
    (hstep : ∀ s r, R s r → ∀ a ∈ as, Option.Rel R (step s a) (step' r a)) (h : R s r) :
    Option.Rel R (exec step s as) (exec step' r as) := by
  induction as generalizing s r with
  | nil => exact .some h
  | cons a as ih =>
    have hfirst := hstep s r h a List.mem_cons_self
    simp only [exec]
    generalize step s a = o at hfirst
    generalize step' r a = o' at hfirst
    cases hfirst with
    | none => exact .none
    | some hnext =>
      exact ih (fun s r hsr b hb => hstep s r hsr b (List.mem_cons_of_mem a hb)) hnext

end Lib.Run
