import Mathlib.Data.List.DropRight

/-!
# Texts
-/

namespace TinyLord

abbrev Text := List Char

/-- `char::is_whitespace`. -/
def isWhitespace (c : Char) : Bool :=
  let n := c.toNat
  (9 ≤ n && n ≤ 13) || n == 0x20 || n == 0x85 || n == 0xA0 || n == 0x1680 ||
    (0x2000 ≤ n && n ≤ 0x200A) || n == 0x2028 || n == 0x2029 || n == 0x202F || n == 0x205F ||
    n == 0x3000

/-- `str::trim`. -/
def Text.trim (s : Text) : Text := (s.dropWhile isWhitespace).rdropWhile isWhitespace

/-- `str::trim_matches`. -/
def Text.trimMatches (c : Char) (s : Text) : Text := (s.dropWhile (· == c)).rdropWhile (· == c)

/-- `str::trim_end_matches`. -/
def Text.trimEndMatches (c : Char) (s : Text) : Text := s.rdropWhile (· == c)

theorem length_trim_le (s : Text) : (Text.trim s).length ≤ s.length :=
  ((List.rdropWhile_prefix _ _).length_le).trans (List.dropWhile_suffix _).length_le

theorem trim_eq_self {s : Text} (h : ∀ c ∈ s, isWhitespace c = false) : Text.trim s = s := by
  have hfront : s.dropWhile isWhitespace = s := by
    cases s with
    | nil => rfl
    | cons c s => exact List.dropWhile_cons_of_neg (by simp [h c List.mem_cons_self])
  rw [Text.trim, hfront, List.rdropWhile_eq_self_iff]
  intro hne hlast
  rw [h _ (List.getLast_mem hne)] at hlast
  exact absurd hlast (by decide)

/-! ## Trimming a character -/

variable {c : Char} {s : Text}

theorem trimMatches_trimMatches (c : Char) (s : Text) :
    (s.trimMatches c).trimMatches c = s.trimMatches c := by
  unfold Text.trimMatches
  have hfront : ((s.dropWhile (· == c)).rdropWhile (· == c)).dropWhile (· == c) =
      (s.dropWhile (· == c)).rdropWhile (· == c) := by
    obtain ⟨back, hback⟩ := List.rdropWhile_prefix (· == c) (s.dropWhile (· == c))
    cases ht : (s.dropWhile (· == c)).rdropWhile (· == c) with
    | nil => rfl
    | cons d t =>
      rw [ht, List.cons_append] at hback
      have hd := List.head?_dropWhile_not (· == c) s
      rw [← hback] at hd
      exact List.dropWhile_cons_of_neg (by simpa using hd)
  rw [hfront, List.rdropWhile_idempotent]

theorem trimMatches_surround (htrim : s.trimMatches c = s) (hne : s ≠ []) :
    Text.trimMatches c (c :: (s ++ [c])) = s := by
  unfold Text.trimMatches at htrim ⊢
  obtain ⟨d, t, rfl⟩ := List.exists_cons_of_ne_nil hne
  have hd : (d == c) = false := by
    by_contra h
    rw [List.dropWhile_cons_of_pos (by simpa using h)] at htrim
    have := congrArg List.length htrim
    have hle := ((List.rdropWhile_prefix (· == c) (t.dropWhile (· == c))).length_le).trans
      (List.dropWhile_suffix (· == c)).length_le
    rw [List.length_cons] at this
    omega
  rw [List.dropWhile_cons_of_neg (by simp [hd])] at htrim
  rw [List.dropWhile_cons_of_pos (by simp), List.cons_append,
    List.dropWhile_cons_of_neg (by simp [hd]), ← List.cons_append,
    List.rdropWhile_concat_pos _ _ _ (by simp), htrim]

/-! ## Splitting at a character -/

theorem mem_intercalate {d : Char} {segments : List Text}
    (h : d ∈ [c].intercalate segments) : d = c ∨ ∃ segment ∈ segments, d ∈ segment := by
  induction segments with
  | nil => cases h
  | cons segment segments ih =>
    cases segments with
    | nil =>
      rw [List.intercalate_singleton] at h
      exact Or.inr ⟨segment, List.mem_cons_self, h⟩
    | cons next segments =>
      rw [List.intercalate_cons_cons, List.mem_append, List.mem_append, List.mem_singleton] at h
      rcases h with (hd | hd) | hd
      · exact Or.inr ⟨segment, List.mem_cons_self, hd⟩
      · exact Or.inl hd
      · exact (ih hd).imp_right fun ⟨t, ht, hdt⟩ => ⟨t, List.mem_cons_of_mem _ ht, hdt⟩

/-- A character of a text is one of its segments, or the one between them. -/
theorem mem_splitOn {d : Char} (h : d ∈ s) : d = c ∨ ∃ segment ∈ s.splitOn c, d ∈ segment := by
  have hjoin : [c].intercalate (s.splitOn c) = s := List.intercalate_splitOn c
  rw [← hjoin] at h
  exact mem_intercalate h

theorem splitOn_surround (c : Char) (s : Text) :
    (c :: (s ++ [c])).splitOn c = [] :: (s.splitOn c ++ [[]]) := by
  have hfront := List.splitOn_append_cons_self (a := c) [] (s ++ [c])
  have hback := List.splitOn_append_cons_self (a := c) s []
  rw [List.nil_append] at hfront
  rw [hfront, hback]
  rfl

theorem splitOn_cons (c : Char) (s : Text) : (c :: s).splitOn c = [] :: s.splitOn c := by
  have hfront := List.splitOn_append_cons_self (a := c) [] s
  rw [List.nil_append] at hfront
  rw [hfront]
  rfl

end TinyLord
