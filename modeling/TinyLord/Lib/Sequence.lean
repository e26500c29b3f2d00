import Mathlib.Algebra.Order.Ring.Int
import Mathlib.Data.List.Basic

/-!
# Lists in increasing order of an integer key

A table whose primary key is handed out in order: rows are appended with the next key after
the greatest one, and the rows up to some key are cut off at the front.
-/

namespace Lib.Sequence

variable {α β : Type*} {key : α → Int} {l : List α} {a x : α} {m c d : Int}

def Increasing (key : α → Int) (l : List α) : Prop := l.Pairwise fun a b => key a < key b

/-- `COALESCE(MAX(key), 0)`. -/
def maxKey (key : α → Int) (l : List α) : Int := (l.map key).max?.getD 0

/-- `MIN(key)`. -/
def minKey (key : α → Int) (l : List α) : Option Int := (l.map key).min?

def above (key : α → Int) (cut : Int) (l : List α) : List α := l.filter fun a => cut < key a

theorem le_maxKey (key : α → Int) (h : a ∈ l) : key a ≤ maxKey key l := by
  have hmem : key a ∈ l.map key := List.mem_map_of_mem h
  cases hm : (l.map key).max? with
  | none => simp [List.max?_eq_none_iff.mp hm] at hmem
  | some m =>
    rw [maxKey, hm]
    exact (List.max?_eq_some_iff.mp hm).2 _ hmem

theorem maxKey_mem (key : α → Int) (h : l ≠ []) : ∃ a ∈ l, key a = maxKey key l := by
  cases hm : (l.map key).max? with
  | none => exact absurd (List.map_eq_nil_iff.mp (List.max?_eq_none_iff.mp hm)) h
  | some m =>
    obtain ⟨a, ha, hk⟩ := List.mem_map.mp (List.max?_eq_some_iff.mp hm).1
    exact ⟨a, ha, by rw [maxKey, hm, hk]; rfl⟩

theorem minKey_mem (h : minKey key l = some m) : ∃ a ∈ l, key a = m :=
  List.mem_map.mp (List.min?_eq_some_iff.mp h).1

theorem minKey_none : minKey key l = none ↔ l = [] := by simp [minKey]

/-! ## Cutting off the front -/

theorem mem_above : a ∈ above key c l ↔ a ∈ l ∧ c < key a := by simp [above]

theorem above_above : above key c (above key d l) = above key (max c d) l := by
  rw [above, above, List.filter_filter, above]
  apply List.filter_congr
  intro a _
  rw [← Bool.decide_and, decide_eq_decide]
  omega

theorem above_append (l' : List α) : above key c (l ++ l') = above key c l ++ above key c l' :=
  List.filter_append ..

theorem map_above (key' : β → Int) (f : α → β) (h : ∀ a, key' (f a) = key a) (l : List α) :
    (above key c l).map f = above key' c (l.map f) := by
  rw [above, above, List.filter_map]
  congr 1
  apply List.filter_congr
  intro a _
  simp [h]

theorem maxKey_above (h : above key c l ≠ []) : maxKey key (above key c l) = maxKey key l := by
  obtain ⟨a, ha, hka⟩ := maxKey_mem key h
  obtain ⟨b, hb, hkb⟩ := maxKey_mem key (List.ne_nil_of_mem (mem_above.mp ha).1)
  have hle : maxKey key (above key c l) ≤ maxKey key l := hka ▸ le_maxKey key (mem_above.mp ha).1
  have hcb : c < key b := by
    have := (mem_above.mp ha).2
    omega
  have hge : key b ≤ maxKey key (above key c l) := le_maxKey key (mem_above.mpr ⟨hb, hcb⟩)
  omega

theorem maxKey_map (key' : β → Int) (f : α → β) (h : ∀ a, key' (f a) = key a) (l : List α) :
    maxKey key' (l.map f) = maxKey key l := by
  rw [maxKey, maxKey, List.map_map]
  congr 3
  funext a
  exact h a

/-! ## Appending the next key -/

theorem Increasing.append (h : Increasing key l) (hx : ∀ a ∈ l, key a < key x) :
    Increasing key (l ++ [x]) := by
  rw [Increasing, List.pairwise_append]
  refine ⟨h, List.pairwise_singleton _ _, ?_⟩
  intro a ha b hb
  rw [List.mem_singleton.mp hb]
  exact hx a ha

theorem maxKey_append (key : α → Int) (hx : ∀ a ∈ l, key a ≤ key x) :
    maxKey key (l ++ [x]) = key x := by
  have hmem : x ∈ l ++ [x] := by simp
  obtain ⟨b, hb, hk⟩ := maxKey_mem key (List.ne_nil_of_mem hmem)
  have hle : key x ≤ maxKey key (l ++ [x]) := le_maxKey key hmem
  rw [List.mem_append, List.mem_singleton] at hb
  rcases hb with hb | rfl
  · have := hx b hb
    omega
  · omega

theorem maxKey_le_append {l' : List α} (h : ∀ x ∈ l', maxKey key l < key x) :
    maxKey key l ≤ maxKey key (l ++ l') := by
  cases l' with
  | nil => rw [List.append_nil]
  | cons x xs =>
    have hlt : maxKey key l < key x := h x List.mem_cons_self
    have hle : key x ≤ maxKey key (l ++ x :: xs) := le_maxKey key (by simp)
    exact hlt.le.trans hle

theorem Increasing.above (h : Increasing key l) : Increasing key (above key c l) :=
  List.Pairwise.filter _ h

theorem Increasing.eq_of_key (h : Increasing key l) {b : α} (ha : a ∈ l) (hb : b ∈ l)
    (hk : key a = key b) : a = b := by
  induction l with
  | nil => simp at ha
  | cons y ys ih =>
    rw [Increasing, List.pairwise_cons] at h
    rcases List.mem_cons.mp ha with hay | ha <;> rcases List.mem_cons.mp hb with hby | hb
    · rw [hay, hby]
    · have := h.1 b hb
      rw [hay] at hk
      omega
    · have := h.1 a ha
      rw [hby] at hk
      omega
    · exact ih h.2 ha hb

theorem Increasing.pairwise {R : α → α → Prop} (h : Increasing key l) (hR : l.Pairwise R) {b : α}
    (ha : a ∈ l) (hb : b ∈ l) (hk : key a < key b) : R a b := by
  induction l with
  | nil => cases ha
  | cons y ys ih =>
    rw [Increasing, List.pairwise_cons] at h
    rw [List.pairwise_cons] at hR
    rcases List.mem_cons.mp ha with hay | ha' <;> rcases List.mem_cons.mp hb with hby | hb'
    · rw [hay, hby] at hk
      exact absurd hk (lt_irrefl _)
    · rw [hay]
      exact hR.1 b hb'
    · rw [hby] at hk
      exact absurd (hk.trans (h.1 a ha')) (lt_irrefl _)
    · exact ih h.2 hR.2 ha' hb'

/-! ## Consecutive keys -/

/-- The `n` numbers that end at `last`. -/
def upTo (last : Int) : Nat → List Int
  | 0 => []
  | n + 1 => (last - n) :: upTo last n

theorem mem_upTo {n : Nat} {i : Int} : i ∈ upTo m n ↔ m - n < i ∧ i ≤ m := by
  induction n with
  | zero => simp [upTo]
  | succ n ih =>
    rw [upTo, List.mem_cons, ih]
    omega

@[simp] theorem length_upTo (last : Int) (n : Nat) : (upTo last n).length = n := by
  induction n with
  | zero => rfl
  | succ n ih => simp [upTo, ih]

theorem upTo_succ (last : Int) (n : Nat) : upTo (last + 1) (n + 1) = upTo last n ++ [last + 1] := by
  induction n with
  | zero => simp [upTo]
  | succ n ih =>
    rw [upTo, ih, upTo, List.cons_append]
    congr 1
    omega

theorem upTo_append (last : Int) (m n : Nat) :
    upTo last m ++ upTo (last + n) n = upTo (last + n) (m + n) := by
  induction n with
  | zero => simp [upTo]
  | succ n ih =>
    have hlast : last + (n + 1 : Nat) = last + n + 1 := by omega
    rw [hlast, upTo_succ, ← List.append_assoc, ih, ← upTo_succ, Nat.add_assoc]

theorem maxKey_of_upTo {n : Nat} (h : l.map key = upTo m n) (hn : n ≠ 0) : maxKey key l = m := by
  have hmem : m ∈ l.map key := by
    rw [h, mem_upTo]
    omega
  obtain ⟨a, ha, rfl⟩ := List.mem_map.mp hmem
  obtain ⟨b, hb, hmax⟩ := maxKey_mem key (List.ne_nil_of_mem ha)
  have hb : key b ∈ upTo (key a) n := h ▸ List.mem_map_of_mem hb
  have hle : key a ≤ maxKey key l := le_maxKey key ha
  rw [mem_upTo] at hb
  omega

theorem above_of_upTo {n r : Nat} (h : l.map key = upTo m n) :
    (above key (m - r) l).map key = upTo m (min r n) := by
  induction n generalizing l with
  | zero =>
    have hl : l = [] := by simpa [upTo] using h
    simp [hl, above, upTo]
  | succ n ih =>
    obtain ⟨a, l, rfl, ha, hl⟩ := List.map_eq_cons_iff.mp h
    have hrest := ih hl
    rw [above] at hrest ⊢
    by_cases hr : n < r
    · have hmin : min r (n + 1) = min r n + 1 := by omega
      have hcut : min r n = n := by omega
      rw [List.filter_cons_of_pos (by simp; omega), List.map_cons, hrest, hmin, upTo, hcut, ha]
    · have hmin : min r (n + 1) = min r n := by omega
      rw [List.filter_cons_of_neg (by simp; omega), hrest, hmin]

end Lib.Sequence
