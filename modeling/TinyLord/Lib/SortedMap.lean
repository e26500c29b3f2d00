import Mathlib.Data.List.Pairwise
import Mathlib.Order.Lattice

/-!
# Maps as lists in key order

A map is a list of keys and values with rising keys. Two such lists that give the same for every key
are the same.
-/

namespace Lib.SortedMap

variable {κ α β : Type*} [LinearOrder κ] {xs ys : List (κ × α)} {k key : κ} {v w : α}
  {f : κ → α → Option β}

def Rising (xs : List (κ × α)) : Prop := xs.Pairwise fun x y => x.1 < y.1

def get (k : κ) (xs : List (κ × α)) : Option α := (xs.find? fun x => x.1 = k).map (·.2)

def insert (key : κ) (value : α) : List (κ × α) → List (κ × α)
  | [] => [(key, value)]
  | (k, v) :: xs =>
    if key = k then (key, value) :: xs
    else if key < k then (key, value) :: (k, v) :: xs
    else (k, v) :: insert key value xs

/-- The values that `f` keeps, as it changes them. -/
def restrict (f : κ → α → Option β) (xs : List (κ × α)) : List (κ × β) :=
  xs.filterMap fun x => (f x.1 x.2).map fun b => (x.1, b)

/-! ## Lookups -/

@[simp] theorem get_nil : get k ([] : List (κ × α)) = none := rfl

theorem get_cons : get k ((key, v) :: xs) = if key = k then some v else get k xs := by
  unfold get
  by_cases h : key = k <;> simp [h]

theorem get_eq_none (h : ∀ x ∈ xs, key < x.1) : get key xs = none := by
  rw [get, Option.map_eq_none_iff, List.find?_eq_none]
  intro x hx heq
  rw [decide_eq_true_iff] at heq
  exact absurd (heq ▸ h x hx) (lt_irrefl _)

theorem Rising.tail (h : Rising ((key, v) :: xs)) : Rising xs := (List.pairwise_cons.mp h).2

theorem Rising.head (h : Rising ((key, v) :: xs)) : ∀ x ∈ xs, key < x.1 :=
  (List.pairwise_cons.mp h).1

theorem ext (hx : Rising xs) (hy : Rising ys) (h : ∀ k, get k xs = get k ys) : xs = ys := by
  induction xs generalizing ys with
  | nil =>
    cases ys with
    | nil => rfl
    | cons y ys =>
      obtain ⟨l, w⟩ := y
      have hl := h l
      rw [get_nil, get_cons, if_pos rfl] at hl
      contradiction
  | cons x xs ih =>
    obtain ⟨k, v⟩ := x
    cases ys with
    | nil =>
      have hk := h k
      rw [get_nil, get_cons, if_pos rfl] at hk
      contradiction
    | cons y ys =>
      obtain ⟨l, w⟩ := y
      have hk := h k
      have hl := h l
      rw [get_cons, get_cons, if_pos rfl] at hk
      rw [get_cons, get_cons, if_pos rfl] at hl
      -- The smaller of the two first keys would be missing on the other side.
      have hkl : k = l := by
        rcases lt_trichotomy k l with hlt | heq | hlt
        · rw [if_neg (ne_of_gt hlt), get_eq_none fun y hy' => lt_trans hlt (hy.head y hy')] at hk
          contradiction
        · exact heq
        · rw [if_neg (ne_of_gt hlt), get_eq_none fun x hx' => lt_trans hlt (hx.head x hx')] at hl
          contradiction
      subst hkl
      rw [if_pos rfl] at hk
      cases hk
      have hrest : ∀ j, get j xs = get j ys := by
        intro j
        have hj := h j
        rw [get_cons, get_cons] at hj
        by_cases hkj : k = j
        · subst hkj
          rw [get_eq_none hx.head, get_eq_none hy.head]
        · rwa [if_neg hkj, if_neg hkj] at hj
      rw [ih hx.tail hy.tail hrest]

/-! ## Insertion -/

theorem mem_insert {x : κ × α} (h : x ∈ insert key v xs) : x = (key, v) ∨ x ∈ xs := by
  induction xs with
  | nil => exact Or.inl (List.mem_singleton.mp h)
  | cons y xs ih =>
    obtain ⟨l, w⟩ := y
    rw [insert] at h
    split_ifs at h
    · rcases List.mem_cons.mp h with hx | hx
      · exact Or.inl hx
      · exact Or.inr (List.mem_cons_of_mem _ hx)
    · exact List.mem_cons.mp h
    · rcases List.mem_cons.mp h with hx | hx
      · exact Or.inr (hx ▸ List.mem_cons_self)
      · exact (ih hx).imp_right (List.mem_cons_of_mem _)

theorem rising_insert (h : Rising xs) : Rising (insert key v xs) := by
  induction xs with
  | nil => exact List.pairwise_singleton _ _
  | cons y xs ih =>
    obtain ⟨l, w⟩ := y
    rw [insert]
    split_ifs with heq hlt
    · subst heq
      exact List.pairwise_cons.mpr ⟨h.head, h.tail⟩
    · refine List.pairwise_cons.mpr ⟨?_, h⟩
      rw [List.forall_mem_cons]
      exact ⟨hlt, fun x hx => lt_trans hlt (h.head x hx)⟩
    · refine List.pairwise_cons.mpr ⟨?_, ih h.tail⟩
      intro x hx
      rcases mem_insert hx with rfl | hx
      · exact lt_of_le_of_ne (not_lt.mp hlt) (Ne.symm heq)
      · exact h.head x hx

theorem get_insert : get k (insert key v xs) = if key = k then some v else get k xs := by
  induction xs with
  | nil => rw [insert, get_cons]
  | cons y xs ih =>
    obtain ⟨l, w⟩ := y
    rw [insert]
    by_cases heq : key = l
    · subst heq
      rw [if_pos rfl, get_cons, get_cons]
      by_cases hk : key = k
      · rw [if_pos hk, if_pos hk]
      · rw [if_neg hk, if_neg hk, if_neg hk]
    · rw [if_neg heq]
      split
      · rw [get_cons]
      · rw [get_cons, get_cons, ih]
        by_cases hl : l = k
        · rw [if_pos hl, if_pos hl, if_neg fun hk => heq (hk.trans hl.symm)]
        · rw [if_neg hl, if_neg hl]

theorem insert_self (hx : Rising xs) (h : get key xs = some v) : insert key v xs = xs := by
  refine ext (rising_insert hx) hx ?_
  intro k
  rw [get_insert]
  split
  · next hk => rw [← hk, h]
  · rfl

/-! ## Restriction -/

omit [LinearOrder κ] in
theorem mem_restrict {x : κ × β} (h : x ∈ restrict f xs) : ∃ v, (x.1, v) ∈ xs := by
  obtain ⟨⟨k, v⟩, hx, hf⟩ := List.mem_filterMap.mp h
  obtain ⟨b, -, rfl⟩ := Option.map_eq_some_iff.mp hf
  exact ⟨v, hx⟩

omit [LinearOrder κ] in
theorem restrict_cons : restrict f ((key, v) :: xs) =
    match f key v with
    | some b => (key, b) :: restrict f xs
    | none => restrict f xs := by
  unfold restrict
  rw [List.filterMap_cons]
  cases f key v <;> rfl

theorem rising_restrict (h : Rising xs) : Rising (restrict f xs) := by
  induction xs with
  | nil => exact List.Pairwise.nil
  | cons x xs ih =>
    obtain ⟨k, v⟩ := x
    rw [restrict_cons]
    split
    · refine List.pairwise_cons.mpr ⟨?_, ih h.tail⟩
      intro y hy
      obtain ⟨w, hw⟩ := mem_restrict hy
      exact h.head _ hw
    · exact ih h.tail

theorem get_restrict (h : Rising xs) : get k (restrict f xs) = (get k xs).bind (f k) := by
  induction xs with
  | nil => rfl
  | cons x xs ih =>
    obtain ⟨l, v⟩ := x
    have hrest := ih h.tail
    rw [restrict_cons, get_cons]
    by_cases hl : l = k
    · subst hl
      rw [if_pos rfl, Option.bind_some]
      split
      · next b hb => rw [get_cons, if_pos rfl, hb]
      · next hb => rw [hrest, hb, get_eq_none h.head, Option.bind_none]
    · rw [if_neg hl, ← hrest]
      split
      · rw [get_cons, if_neg hl]
      · rfl

end Lib.SortedMap
