import Mathlib.Logic.Basic

/-!
# Scripts

Statements run one after the other, and each is committed by itself. The first that fails ends the
script, and what the statements before it have done stays.
-/

namespace Lib.Script

variable {δ σ : Type*} {apply : σ → δ → Option δ} {as bs : List σ} {d d' : δ} {a b : σ}

/-- Whether the script has run to its end stands beside what it leaves. -/
def run (apply : σ → δ → Option δ) : List σ → δ → δ × Bool
  | [], d => (d, true)
  | a :: as, d =>
    match apply a d with
    | none => (d, false)
    | some d' => run apply as d'

theorem run_cons_of_some (h : apply a d = some d') : run apply (a :: as) d = run apply as d' := by
  simp only [run, h]

theorem run_singleton (h : apply a d = some d') : run apply [a] d = (d', true) :=
  run_cons_of_some h

theorem run_append (h : (run apply as d).2 = true) :
    run apply (as ++ bs) d = run apply bs (run apply as d).1 := by
  induction as generalizing d with
  | nil => rfl
  | cons a as ih =>
    simp only [List.cons_append, run] at h ⊢
    cases ha : apply a d with
    | none => simp [ha] at h
    | some d' =>
      simp only [ha] at h ⊢
      exact ih h

/-! ## Along a script -/

theorem run_inv {P : δ → Prop} (hstep : ∀ a ∈ as, ∀ d d', P d → apply a d = some d' → P d')
    (h : P d) : P (run apply as d).1 := by
  induction as generalizing d with
  | nil => exact h
  | cons a as ih =>
    simp only [run]
    cases ha : apply a d with
    | none => exact h
    | some d' =>
      exact ih (fun b hb => hstep b (List.mem_cons_of_mem a hb))
        (hstep a List.mem_cons_self d d' h ha)

/-- A script that has run to its end has established what each of its statements does, when no
statement undoes it. -/
theorem run_established {E : σ → δ → Prop} (hdo : ∀ a d d', apply a d = some d' → E a d')
    (hkeep : ∀ a b d d', E a d → apply b d = some d' → E a d')
    (h : (run apply as d).2 = true) : ∀ a ∈ as, E a (run apply as d).1 := by
  induction as generalizing d with
  | nil => nofun
  | cons b as ih =>
    simp only [run] at h ⊢
    cases hb : apply b d with
    | none => simp [hb] at h
    | some d' =>
      simp only [hb] at h ⊢
      intro a ha
      rcases List.mem_cons.mp ha with rfl | ha
      · exact run_inv (P := E a) (fun c _ d d' => hkeep a c d d') (hdo a d d' hb)
      · exact ih h a ha

/-! ## Interrupted scripts -/

theorem run_take (n : Nat) (h : (run apply as d).2 = true) :
    (run apply (as.take n) d).2 = true := by
  induction as generalizing d n with
  | nil => simp [run]
  | cons a as ih =>
    cases n with
    | zero => rfl
    | succ n =>
      simp only [List.take_succ_cons, run] at h ⊢
      cases ha : apply a d with
      | none => simp [ha] at h
      | some d' =>
        simp only [ha] at h ⊢
        exact ih n h

end Lib.Script
