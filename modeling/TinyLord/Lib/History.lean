import Mathlib.Data.List.Induction
import Mathlib.Order.Lattice

/-!
# Logs of events

A log grows at its end. Some events grant a thing and some end it again. What is granted may also
expire by the clock, and then a store is free to drop it or to keep it.
-/

namespace Lib.History

variable {ε κ : Type*} {log : List ε} {e x : ε} {ended : ε → Prop}

/-- The event has happened, and none that ends it has happened since. -/
def Since (log : List ε) (e : ε) (ended : ε → Prop) : Prop :=
  ∃ before after, log = before ++ e :: after ∧ ∀ x ∈ after, ¬ended x

theorem since_concat : Since (log ++ [x]) e ended ↔ x = e ∨ (Since log e ended ∧ ¬ended x) := by
  constructor
  · rintro ⟨before, after, heq, hafter⟩
    rcases List.eq_nil_or_concat after with rfl | ⟨after, y, rfl⟩
    · rw [List.append_inj_right' heq rfl |> List.singleton_inj.mp]
      exact Or.inl rfl
    · rw [List.concat_eq_append, ← List.cons_append, ← List.append_assoc] at heq
      have hlog := List.append_inj_left' heq rfl
      have hx : x = y := List.singleton_inj.mp (List.append_inj_right' heq rfl)
      rw [List.concat_eq_append, List.forall_mem_append] at hafter
      refine Or.inr ⟨⟨before, after, hlog, hafter.1⟩, ?_⟩
      rw [hx]
      exact hafter.2 y (List.mem_singleton_self y)
  · rintro (rfl | ⟨⟨before, after, rfl, hafter⟩, hx⟩)
    · exact ⟨log, [], rfl, nofun⟩
    · refine ⟨before, after ++ [x], by simp, ?_⟩
      rw [List.forall_mem_append, List.forall_mem_singleton]
      exact ⟨hafter, hx⟩

theorem Since.mem (h : Since log e ended) : e ∈ log := by
  obtain ⟨before, after, rfl, -⟩ := h
  simp

theorem not_since_nil : ¬Since [] e ended := fun h => List.not_mem_nil h.mem

/-! ## Counting since the last reset -/

section

variable {counts resets : ε → Bool} {n : Nat} {window : List ε}

/-- How many events count since the last one that resets. -/
def countSince (counts resets : ε → Bool) (log : List ε) : Nat :=
  log.foldl (fun n e => if resets e then 0 else if counts e then n + 1 else n) 0

/-- A stretch of the log with no reset in it. -/
def Window (resets : ε → Bool) (log window : List ε) : Prop :=
  (∃ before after, log = before ++ window ++ after) ∧ ∀ e ∈ window, resets e = false

/-- No stretch without a reset counts to more than `n`. -/
def Limited (counts resets : ε → Bool) (n : Nat) (log : List ε) : Prop :=
  ∀ window, Window resets log window → window.countP counts ≤ n

theorem countSince_concat : countSince counts resets (log ++ [e]) =
    if resets e then 0
    else if counts e then countSince counts resets log + 1 else countSince counts resets log := by
  rw [countSince, List.foldl_append]
  rfl

theorem countP_le_countSince (before : List ε) (h : ∀ e ∈ window, resets e = false) :
    window.countP counts ≤ countSince counts resets (before ++ window) := by
  induction window using List.reverseRecOn with
  | nil => exact Nat.zero_le _
  | append_singleton window x ih =>
    rw [List.forall_mem_append, List.forall_mem_singleton] at h
    have hle := ih h.1
    rw [← List.append_assoc, countSince_concat, h.2, List.countP_append]
    simp only [Bool.false_eq_true, if_false, List.countP_singleton]
    split_ifs <;> omega

theorem exists_window (counts resets : ε → Bool) (log : List ε) :
    ∃ window, Window resets log window ∧ window.countP counts = countSince counts resets log := by
  suffices ∃ before window, log = before ++ window ∧ (∀ e ∈ window, resets e = false) ∧
      window.countP counts = countSince counts resets log by
    obtain ⟨before, window, heq, hnone, hcount⟩ := this
    exact ⟨window, ⟨⟨before, [], by rw [heq, List.append_nil]⟩, hnone⟩, hcount⟩
  induction log using List.reverseRecOn with
  | nil => exact ⟨[], [], rfl, nofun, rfl⟩
  | append_singleton log x ih =>
    obtain ⟨before, window, heq, hnone, hcount⟩ := ih
    rw [countSince_concat, ← hcount]
    by_cases hx : resets x = true
    · exact ⟨log ++ [x], [], by rw [List.append_nil], nofun, by rw [if_pos hx]; rfl⟩
    · refine ⟨before, window ++ [x], by rw [heq, List.append_assoc], ?_, ?_⟩
      · rw [List.forall_mem_append, List.forall_mem_singleton]
        exact ⟨hnone, by simpa using hx⟩
      · rw [if_neg hx, List.countP_append, List.countP_singleton]
        split_ifs <;> rfl

theorem Limited.nil : Limited counts resets n [] := by
  rintro window ⟨⟨before, after, heq⟩, -⟩
  obtain ⟨-, rfl⟩ := List.append_eq_nil_iff.mp (List.append_eq_nil_iff.mp heq.symm).1
  exact Nat.zero_le n

theorem Limited.concat (h : Limited counts resets n log)
    (hle : countSince counts resets (log ++ [e]) ≤ n) : Limited counts resets n (log ++ [e]) := by
  rintro window ⟨⟨before, after, heq⟩, hnone⟩
  rcases List.eq_nil_or_concat after with rfl | ⟨after, x, rfl⟩
  · rw [List.append_nil] at heq
    rw [heq] at hle
    exact Nat.le_trans (countP_le_countSince before hnone) hle
  · rw [List.concat_eq_append, ← List.append_assoc] at heq
    exact h window ⟨⟨before, after, List.append_inj_left' heq rfl⟩, hnone⟩

end

/-! ## A store of what is granted -/

section

variable {τ : Type*} [LinearOrder τ] {made : ε → Option κ} {ends : κ → ε → Prop} {expiry : κ → τ}
  {held held' : List κ} {c : κ} {clock clock' now t : τ}

/-- An event has granted it, and none has ended it since. -/
def Granted (made : ε → Option κ) (ends : κ → ε → Prop) (log : List ε) (c : κ) : Prop :=
  ∃ e, made e = some c ∧ Since log e (ends c)

/-- The store holds what is granted, and may lack only what has expired. -/
structure Backed (made : ε → Option κ) (ends : κ → ε → Prop) (expiry : κ → τ) (log : List ε)
    (clock : τ) (held : List κ) : Prop where
  sound : ∀ c ∈ held, Granted made ends log c
  complete : ∀ c, Granted made ends log c → clock < expiry c → c ∈ held

theorem granted_concat : Granted made ends (log ++ [e]) c ↔
    made e = some c ∨ (Granted made ends log c ∧ ¬ends c e) := by
  simp only [Granted, since_concat]
  constructor
  · rintro ⟨x, hx, rfl | ⟨hsince, hends⟩⟩
    · exact Or.inl hx
    · exact Or.inr ⟨⟨x, hx, hsince⟩, hends⟩
  · rintro (hx | ⟨⟨x, hx, hsince⟩, hends⟩)
    · exact ⟨e, hx, Or.inl rfl⟩
    · exact ⟨x, hx, Or.inr ⟨hsince, hends⟩⟩

theorem Backed.empty : Backed made ends expiry [] clock [] where
  sound := nofun
  complete := by
    rintro c ⟨e, -, h⟩
    exact absurd h not_since_nil

theorem Backed.tick (h : Backed made ends expiry log clock held) (hle : clock ≤ clock') :
    Backed made ends expiry log clock' held where
  sound := h.sound
  complete c hc hlt := h.complete c hc (hle.trans_lt hlt)

theorem Backed.purge (h : Backed made ends expiry log clock held) (hle : now ≤ clock)
    (hmem : ∀ c, c ∈ held' ↔ c ∈ held ∧ now < expiry c) :
    Backed made ends expiry log clock held' where
  sound c hc := h.sound c ((hmem c).mp hc).1
  complete c hc hlt := (hmem c).mpr ⟨h.complete c hc hlt, hle.trans_lt hlt⟩

theorem Backed.record (h : Backed made ends expiry log clock held)
    (hmem : ∀ c, c ∈ held' ↔ made e = some c ∨ (c ∈ held ∧ ¬ends c e)) :
    Backed made ends expiry (log ++ [e]) clock held' where
  sound c hc := by
    rw [granted_concat]
    exact ((hmem c).mp hc).imp_right fun hold => ⟨h.sound c hold.1, hold.2⟩
  complete c hc hlt := by
    rw [granted_concat] at hc
    exact (hmem c).mpr (hc.imp_right fun hold => ⟨h.complete c hold.1 hlt, hold.2⟩)

/-- What has not expired is in the store just when it is granted. -/
theorem Backed.valid (h : Backed made ends expiry log clock held) (ht : clock ≤ t) :
    c ∈ held ∧ t < expiry c ↔ Granted made ends log c ∧ t < expiry c := by
  constructor
  · rintro ⟨hc, hlt⟩
    exact ⟨h.sound c hc, hlt⟩
  · rintro ⟨hc, hlt⟩
    exact ⟨h.complete c hc (ht.trans_lt hlt), hlt⟩

end

end Lib.History
