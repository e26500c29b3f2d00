import Mathlib

/-!
# LIKE

`%` stands for any text, `_` for any one character, and every other character for itself in either
ASCII letter case.
-/

namespace Lib.Sql

def like : List Char → List Char → Bool
  | [], s => s.isEmpty
  | c :: p, s =>
    if c = '%' then s.tails.any fun t => like p t
    else
      match s with
      | [] => false
      | d :: t => (c = '_' || c.toLower = d.toLower) && like p t

/-- `lower()`, which folds ASCII only. -/
def lower (s : List Char) : List Char := s.map Char.toLower

def isWildcard (c : Char) : Bool := c == '%' || c == '_'

variable {c d : Char} {p q s t : List Char}

/-! ## One piece of a pattern -/

@[simp] theorem like_nil : like [] s = true ↔ s = [] := by simp [like]

theorem like_percent : like ('%' :: p) s = true ↔ ∃ t, t <:+ s ∧ like p t = true := by
  simp [like]

theorem like_cons (hc : c ≠ '%') : like (c :: p) s = true ↔
    ∃ d t, s = d :: t ∧ (c = '_' ∨ c.toLower = d.toLower) ∧ like p t = true := by
  cases s with
  | nil => simp [like, hc]
  | cons d t => simp [like, hc]

theorem like_append :
    like (p ++ q) s = true ↔ ∃ a b, s = a ++ b ∧ like p a = true ∧ like q b = true := by
  induction p generalizing s with
  | nil => simp
  | cons c p ih =>
    rw [List.cons_append]
    by_cases hc : c = '%'
    · subst hc
      simp only [like_percent, ih]
      constructor
      · rintro ⟨_, ⟨front, rfl⟩, a, b, rfl, ha, hb⟩
        exact ⟨front ++ a, b, (List.append_assoc ..).symm, ⟨a, List.suffix_append _ _, ha⟩, hb⟩
      · rintro ⟨_, b, rfl, ⟨a, ⟨front, rfl⟩, ha⟩, hb⟩
        exact ⟨a ++ b, ⟨front, (List.append_assoc ..).symm⟩, a, b, rfl, ha, hb⟩
    · simp only [like_cons hc, ih]
      constructor
      · rintro ⟨d, _, rfl, hd, a, b, rfl, ha, hb⟩
        exact ⟨d :: a, b, rfl, ⟨d, a, rfl, hd, ha⟩, hb⟩
      · rintro ⟨_, b, rfl, ⟨d, a, rfl, hd, ha⟩, hb⟩
        exact ⟨d, a ++ b, rfl, hd, a, b, rfl, ha, hb⟩

/-- Between two percent signs a pattern is looked for anywhere in the text. -/
theorem like_surround : like ('%' :: (p ++ ['%'])) s = true ↔ ∃ m, m <:+: s ∧ like p m = true := by
  simp only [like_percent, like_append]
  constructor
  · rintro ⟨_, ⟨front, rfl⟩, m, back, rfl, hm, -⟩
    exact ⟨m, ⟨front, back, List.append_assoc ..⟩, hm⟩
  · rintro ⟨m, ⟨front, back, rfl⟩, hm⟩
    exact ⟨m ++ back, ⟨front, (List.append_assoc ..).symm⟩, m, back, rfl, hm,
      [], List.nil_suffix, rfl⟩

/-! ## Letter case -/

theorem like_lower : like p (lower s) = true ↔ like p s = true := by
  induction p generalizing s with
  | nil => simp [lower]
  | cons c p ih =>
    by_cases hc : c = '%'
    · subst hc
      simp only [like_percent, lower, List.suffix_map_iff]
      constructor
      · rintro ⟨_, ⟨t, ht, rfl⟩, hlike⟩
        exact ⟨t, ht, ih.mp hlike⟩
      · rintro ⟨t, ht, hlike⟩
        exact ⟨_, ⟨t, ht, rfl⟩, ih.mpr hlike⟩
    · cases s with
      | nil => simp [lower, like_cons hc]
      | cons d t =>
        have hrest := ih (s := t)
        rw [lower] at hrest
        simp [lower, like_cons hc, hrest]

/-- A pattern without wildcards stands for its own text. -/
theorem like_literal (hp : ∀ c ∈ p, isWildcard c = false) :
    like p s = true ↔ lower s = lower p := by
  induction p generalizing s with
  | nil => simp [lower]
  | cons c p ih =>
    obtain ⟨hc, hp⟩ := List.forall_mem_cons.mp hp
    simp only [isWildcard, Bool.or_eq_false_iff, beq_eq_false_iff_ne] at hc
    rw [like_cons hc.1]
    cases s with
    | nil => simp [lower]
    | cons d t =>
      have hrest : like p t = true ↔ t.map Char.toLower = p.map Char.toLower := ih hp
      rw [lower, lower, List.map_cons, List.map_cons, List.cons.injEq, ← hrest]
      constructor
      · rintro ⟨d, t, ⟨⟩, hd, ht⟩
        exact ⟨(hd.resolve_left hc.2).symm, ht⟩
      · rintro ⟨hd, ht⟩
        exact ⟨d, t, rfl, Or.inr hd.symm, ht⟩

/-! ## A text for every pattern -/

/-- Nothing for a percent sign, and a letter for an underscore. -/
def fill (p : List Char) : List Char :=
  p.filterMap fun c => if c = '%' then none else if c = '_' then some 'x' else some c

theorem like_fill (p : List Char) : like p (fill p) = true := by
  induction p with
  | nil => simp [fill]
  | cons c p ih =>
    by_cases hc : c = '%'
    · subst hc
      exact like_percent.mpr ⟨_, List.suffix_refl _, ih⟩
    · rw [like_cons hc]
      by_cases hu : c = '_'
      · exact ⟨'x', fill p, by simp [fill, hu], Or.inl hu, ih⟩
      · exact ⟨c, fill p, by simp [fill, hc, hu], Or.inr rfl, ih⟩

theorem not_isWildcard_fill (hc : c ∈ fill p) : isWildcard c = false := by
  obtain ⟨d, -, hd⟩ := List.mem_filterMap.mp hc
  split_ifs at hd with hpercent hunder
  · cases hd
    rfl
  · cases hd
    simp [isWildcard, hpercent, hunder]

end Lib.Sql
