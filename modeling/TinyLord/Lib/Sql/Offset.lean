import Mathlib.Data.List.Nodup
import TinyLord.Lib.Sql.OrderBy

/-!
# Pages by an offset

Each page is a statement of its own, which may arrange rows that tie in its own way. The pages fit
together just when no rows that tie are on both sides of the end of a page.
-/

namespace Lib.Sql

variable {ρ : Type*} {le : ρ → ρ → Bool} {rows l front back : List ρ} {r s : ρ} {limit n : ℕ}

/-! ## Where a row may stand -/

/-- How many rows are before `r` in every arrangement. -/
def before (le : ρ → ρ → Bool) (rows : List ρ) (r : ρ) : ℕ := rows.countP fun s => !le r s

/-- How many rows are before `r` in some arrangement, and `r` itself. -/
def upTo (le : ρ → ρ → Bool) (rows : List ρ) (r : ρ) : ℕ := rows.countP fun s => le s r

theorem before_le (hle : TotalPreorder le) (hsorted : (front ++ r :: back).Pairwise (le · ·))
    (hperm : (front ++ r :: back).Perm rows) : before le rows r ≤ front.length := by
  have hself : le r r = true := by simpa using hle.total r r
  have hback : (r :: back).countP (fun s => !le r s) = 0 := by
    refine List.countP_eq_zero.mpr fun s hs => ?_
    rcases List.mem_cons.mp hs with rfl | hs
    · simpa using hself
    · have := (List.pairwise_cons.mp (List.pairwise_append.mp hsorted).2.1).1 s hs
      simpa using this
  rw [before, ← hperm.countP_eq, List.countP_append, hback, Nat.add_zero]
  exact List.countP_le_length

theorem lt_upTo (hle : TotalPreorder le) (hsorted : (front ++ r :: back).Pairwise (le · ·))
    (hperm : (front ++ r :: back).Perm rows) : front.length < upTo le rows r := by
  have hself : le r r = true := by simpa using hle.total r r
  have hfront : front.countP (fun s => le s r) = front.length :=
    List.countP_eq_length.mpr fun s hs =>
      (List.pairwise_append.mp hsorted).2.2 s hs r List.mem_cons_self
  rw [upTo, ← hperm.countP_eq, List.countP_append, hfront, List.countP_cons_of_pos (by exact hself)]
  omega

/-! ## Arrangements that put a row first, or last -/

/-- Among rows that tie, those that pass the test come first. -/
def favour (p : ρ → Bool) : Sorter ρ where
  sort le rows := (rows.filter p ++ rows.filter fun r => !p r).mergeSort le
  perm le rows := (List.mergeSort_perm _ le).trans (List.filter_append_perm p rows)
  sorted _ htotal htrans _ := List.pairwise_mergeSort htrans htotal _

theorem favour_pair (hle : TotalPreorder le) {p : ρ → Bool} (hr : r ∈ rows) (hs : s ∈ rows)
    (hpr : p r = true) (hps : p s = false) (hrs : le r s = true) :
    [r, s].Sublist ((favour p).sort le rows) := by
  refine List.pair_sublist_mergeSort hle.trans hle.total hrs ?_
  have hfirst : [r].Sublist (rows.filter p) :=
    List.singleton_sublist.mpr (List.mem_filter.mpr ⟨hr, hpr⟩)
  have hsecond : [s].Sublist (rows.filter fun r => !p r) :=
    List.singleton_sublist.mpr (List.mem_filter.mpr ⟨hs, by rw [hps]; rfl⟩)
  exact hfirst.append hsecond

theorem mem_of_pair_left (hnodup : (front ++ r :: back).Nodup)
    (h : [r, s].Sublist (front ++ r :: back)) : s ∈ back := by
  have hr : r ∉ front := fun hmem =>
    (List.nodup_append.mp hnodup).2.2 r hmem r List.mem_cons_self rfl
  obtain ⟨l₁, l₂, hsplit, hfront, hback⟩ := List.sublist_append_iff.mp h
  cases l₁ with
  | nil =>
    rw [List.nil_append] at hsplit
    rw [← hsplit, List.cons_sublist_cons] at hback
    exact List.singleton_sublist.mp hback
  | cons a l₁ =>
    obtain ⟨rfl, -⟩ := List.cons.inj hsplit
    exact absurd (hfront.subset List.mem_cons_self) hr

theorem mem_of_pair_right (hnodup : (front ++ r :: back).Nodup) (hne : s ≠ r)
    (h : [s, r].Sublist (front ++ r :: back)) : s ∈ front := by
  have hr : r ∉ back := (List.nodup_cons.mp (List.nodup_append.mp hnodup).2.1).1
  obtain ⟨l₁, l₂, hsplit, hfront, hback⟩ := List.sublist_append_iff.mp h
  cases l₁ with
  | nil =>
    rw [List.nil_append] at hsplit
    rw [← hsplit] at hback
    have hpair := (List.cons_sublist_cons'.mp hback).resolve_right fun h => hne h.1
    exact absurd (hpair.subset (by simp)) hr
  | cons a l₁ =>
    obtain ⟨rfl, -⟩ := List.cons.inj hsplit
    exact hfront.subset List.mem_cons_self

variable [DecidableEq ρ]

theorem favour_first (hle : TotalPreorder le) (hnodup : rows.Nodup)
    (hl : (favour fun s => decide (s = r)).sort le rows = front ++ r :: back) :
    front.length = before le rows r := by
  let sorter := favour fun s => decide (s = r)
  have hperm : (front ++ r :: back).Perm rows := hl ▸ sorter.perm le rows
  have hsorted := hl ▸ sorter.sorted le hle.total hle.trans rows
  have hdistinct : (front ++ r :: back).Nodup := hperm.nodup_iff.mpr hnodup
  refine Nat.le_antisymm ?_ (before_le hle hsorted hperm)
  have hfront : ∀ s ∈ front, le r s = false := by
    intro s hs
    by_contra hrs
    have hne : s ≠ r := fun heq =>
      (List.nodup_append.mp hdistinct).2.2 s hs r List.mem_cons_self heq
    have hmem : ∀ x ∈ front ++ r :: back, x ∈ rows := fun x => hperm.mem_iff.mp
    have hpair := favour_pair hle (p := fun s => decide (s = r)) (hmem r (by simp))
      (hmem s (by simp [hs])) (by simp) (by simp [hne]) (by simpa using hrs)
    rw [hl] at hpair
    have hback := mem_of_pair_left hdistinct hpair
    exact (List.nodup_append.mp hdistinct).2.2 s hs s (List.mem_cons_of_mem _ hback) rfl
  rw [before, ← hperm.countP_eq, List.countP_append,
    List.countP_eq_length.mpr fun s hs => by rw [hfront s hs]; rfl]
  exact Nat.le_add_right _ _

theorem favour_last (hle : TotalPreorder le) (hnodup : rows.Nodup)
    (hl : (favour fun s => decide (s ≠ r)).sort le rows = front ++ r :: back) :
    front.length + 1 = upTo le rows r := by
  let sorter := favour fun s => decide (s ≠ r)
  have hperm : (front ++ r :: back).Perm rows := hl ▸ sorter.perm le rows
  have hsorted := hl ▸ sorter.sorted le hle.total hle.trans rows
  have hdistinct : (front ++ r :: back).Nodup := hperm.nodup_iff.mpr hnodup
  refine Nat.le_antisymm (lt_upTo hle hsorted hperm) ?_
  have hback : back.countP (fun s => le s r) = 0 := by
    refine List.countP_eq_zero.mpr fun s hs hsr => ?_
    have hne : s ≠ r := by
      rintro rfl
      exact (List.nodup_cons.mp (List.nodup_append.mp hdistinct).2.1).1 hs
    have hmem : ∀ x ∈ front ++ r :: back, x ∈ rows := fun x => hperm.mem_iff.mp
    have hpair := favour_pair hle (p := fun s => decide (s ≠ r)) (hmem s (by simp [hs]))
      (hmem r (by simp)) (by simp [hne]) (by simp) hsr
    rw [hl] at hpair
    have hfront := mem_of_pair_right hdistinct hne hpair
    exact (List.nodup_append.mp hdistinct).2.2 s hfront s (List.mem_cons_of_mem _ hs) rfl
  rw [upTo, ← hperm.countP_eq, List.countP_append, List.countP_cons, hback]
  have hfront : front.countP (fun s => le s r) ≤ front.length := List.countP_le_length
  split <;> omega

/-! ## Pages -/

omit [DecidableEq ρ]

/-- What the statement of page `k` gives. -/
def offsetPage (sorter : Sorter ρ) (le : ρ → ρ → Bool) (limit k : ℕ) (rows : List ρ) : List ρ :=
  ((sorter.sort le rows).drop (k * limit)).take limit

/-- The first `n` pages, each with the arrangement that its statement happens to have. -/
def offsetPages (sorters : ℕ → Sorter ρ) (le : ρ → ρ → Bool) (limit n : ℕ) (rows : List ρ) :
    List ρ :=
  (List.range n).flatMap fun k => offsetPage (sorters k) le limit k rows

/-- All rows that tie with a row stand on one page. -/
def Unbroken (le : ρ → ρ → Bool) (limit : ℕ) (rows : List ρ) : Prop :=
  ∀ r ∈ rows, before le rows r / limit = (upTo le rows r - 1) / limit

variable {sorter : Sorter ρ} {sorters : ℕ → Sorter ρ} {k : ℕ}

theorem offsetPage_subset (h : r ∈ offsetPage sorter le limit k rows) : r ∈ rows :=
  (sorter.perm le rows).mem_iff.mp (List.mem_of_mem_drop (List.mem_of_mem_take h))

theorem nodup_offsetPage (hnodup : rows.Nodup) : (offsetPage sorter le limit k rows).Nodup :=
  ((sorter.perm le rows).nodup_iff.mpr hnodup).sublist
    ((List.take_sublist ..).trans (List.drop_sublist ..))

theorem mem_offsetPage (hlimit : 0 < limit) (hnodup : rows.Nodup)
    (hl : sorter.sort le rows = front ++ r :: back) :
    r ∈ offsetPage sorter le limit k rows ↔ front.length / limit = k := by
  have hdistinct : (front ++ r :: back).Nodup := hl ▸ (sorter.perm le rows).nodup_iff.mpr hnodup
  have hat : (front ++ r :: back)[front.length]? = some r := by simp
  have hplace : ∀ j, (front ++ r :: back)[j]? = some r ↔ j = front.length := by
    intro j
    refine ⟨fun h => ?_, fun h => h ▸ hat⟩
    have hlength : front.length < (front ++ r :: back).length := by simp
    exact ((List.getElem?_inj hlength hdistinct).mp (hat.trans h.symm)).symm
  rw [offsetPage, hl, List.mem_iff_getElem?, Nat.div_eq_iff hlimit]
  simp only [List.getElem?_take, List.getElem?_drop]
  constructor
  · rintro ⟨i, hi⟩
    split at hi
    · have := (hplace _).mp hi
      omega
    · cases hi
  · rintro ⟨hlow, hhigh⟩
    refine ⟨front.length - k * limit, ?_⟩
    rw [if_pos (by omega), hplace]
    omega

theorem perm_iff_count {κ : Type*} [DecidableEq κ] {key : ρ → κ} {read : List ρ}
    (hnodup : (rows.map key).Nodup) (hread : ∀ r ∈ read, r ∈ rows) :
    read.Perm rows ↔ ∀ k ∈ rows.map key, (read.map key).count k = 1 := by
  constructor
  · intro h k hk
    rw [(h.map key).count_eq]
    exact List.count_eq_one_of_mem hnodup hk
  · intro h
    have hkeys : (read.map key).Nodup := by
      refine List.nodup_iff_count_le_one.mpr fun k => ?_
      by_cases hk : k ∈ read.map key
      · obtain ⟨r, hr, rfl⟩ := List.mem_map.mp hk
        exact (h _ (List.mem_map_of_mem (hread r hr))).le
      · rw [List.count_eq_zero.mpr hk]
        exact Nat.zero_le 1
    refine (List.perm_ext_iff_of_nodup (List.Nodup.of_map key hkeys)
      (List.Nodup.of_map key hnodup)).mpr fun r => ⟨hread r, fun hr => ?_⟩
    have hpos : 0 < (read.map key).count (key r) := by
      rw [h _ (List.mem_map_of_mem hr)]
      exact Nat.one_pos
    obtain ⟨s, hs, heq⟩ := List.mem_map.mp (List.count_pos_iff.mp hpos)
    rwa [List.inj_on_of_nodup_map hnodup (hread s hs) hr heq] at hs

theorem mem_offsetPage_of_unbroken (hle : TotalPreorder le) (hlimit : 0 < limit)
    (hnodup : rows.Nodup) (hunbroken : Unbroken le limit rows) (hr : r ∈ rows) :
    r ∈ offsetPage sorter le limit k rows ↔ before le rows r / limit = k := by
  obtain ⟨front, back, hl⟩ := List.append_of_mem ((sorter.perm le rows).mem_iff.mpr hr)
  have hperm : (front ++ r :: back).Perm rows := hl ▸ sorter.perm le rows
  have hsorted := hl ▸ sorter.sorted le hle.total hle.trans rows
  have hlow := Nat.div_le_div_right (c := limit) (before_le hle hsorted hperm)
  have hhigh := Nat.div_le_div_right (c := limit) (Nat.le_sub_one_of_lt (lt_upTo hle hsorted hperm))
  rw [mem_offsetPage hlimit hnodup hl, hunbroken r hr]
  rw [hunbroken r hr] at hlow
  rw [Nat.le_antisymm hhigh hlow]

theorem before_lt_upTo (hle : TotalPreorder le) (hr : r ∈ rows) :
    before le rows r < upTo le rows r := by
  obtain ⟨front, back, hl⟩ := List.append_of_mem ((mergeSorter.perm le rows).mem_iff.mpr hr)
  have hperm : (front ++ r :: back).Perm rows := hl ▸ mergeSorter.perm le rows
  have hsorted := hl ▸ mergeSorter.sorted le hle.total hle.trans rows
  exact (before_le hle hsorted hperm).trans_lt (lt_upTo hle hsorted hperm)

theorem offsetPages_perm_of_unbroken (hle : TotalPreorder le) (hlimit : 0 < limit)
    (hnodup : rows.Nodup) (hunbroken : Unbroken le limit rows) (hn : rows.length ≤ n * limit) :
    (offsetPages sorters le limit n rows).Perm rows := by
  have hpages : (offsetPages sorters le limit n rows).Nodup := by
    refine List.nodup_flatMap.mpr ⟨fun k _ => nodup_offsetPage hnodup, ?_⟩
    refine List.nodup_range.imp fun {k k'} hne r hk hk' => hne ?_
    have hr := offsetPage_subset hk
    rw [mem_offsetPage_of_unbroken hle hlimit hnodup hunbroken hr] at hk hk'
    exact hk.symm.trans hk'
  refine (List.perm_ext_iff_of_nodup hpages hnodup).mpr fun r => ⟨fun h => ?_, fun hr => ?_⟩
  · obtain ⟨k, -, hk⟩ := List.mem_flatMap.mp h
    exact offsetPage_subset hk
  · have hlt : before le rows r / limit < n :=
      Nat.div_lt_of_lt_mul ((before_lt_upTo hle hr).trans_le (by
        rw [Nat.mul_comm]
        exact List.countP_le_length.trans hn))
    exact List.mem_flatMap.mpr ⟨_, List.mem_range.mpr hlt,
      (mem_offsetPage_of_unbroken hle hlimit hnodup hunbroken hr).mpr rfl⟩

theorem length_offsetPages_le : (offsetPages sorters le limit n rows).length ≤ n * limit := by
  induction n with
  | zero => simp [offsetPages]
  | succ n ih =>
    have hpage : (offsetPage (sorters n) le limit n rows).length ≤ limit := List.length_take_le ..
    rw [offsetPages] at ih ⊢
    rw [List.range_succ, List.flatMap_append, List.flatMap_singleton, List.length_append,
      Nat.succ_mul]
    omega

theorem unbroken_of_offsetPages_perm (hle : TotalPreorder le) (hlimit : 0 < limit)
    (hnodup : rows.Nodup) (h : ∀ sorters, (offsetPages sorters le limit n rows).Perm rows) :
    Unbroken le limit rows := by
  classical
  intro r hr
  by_contra hne
  have hn : rows.length ≤ n * limit := by
    rw [← (h fun _ => mergeSorter).length_eq]
    exact length_offsetPages_le
  let first := favour fun s => decide (s = r)
  let last := favour fun s => decide (s ≠ r)
  let p := before le rows r / limit
  let sorters : ℕ → Sorter ρ := fun k => if k = p then first else last
  have hfirst : r ∈ offsetPage (sorters p) le limit p rows := by
    obtain ⟨front, back, hl⟩ := List.append_of_mem ((first.perm le rows).mem_iff.mpr hr)
    rw [show sorters p = first from if_pos rfl, mem_offsetPage hlimit hnodup hl,
      favour_first hle hnodup hl]
  have hlast : r ∈ offsetPage (sorters ((upTo le rows r - 1) / limit)) le limit
      ((upTo le rows r - 1) / limit) rows := by
    obtain ⟨front, back, hl⟩ := List.append_of_mem ((last.perm le rows).mem_iff.mpr hr)
    rw [show sorters _ = last from if_neg (Ne.symm hne), mem_offsetPage hlimit hnodup hl,
      ← favour_last hle hnodup hl, Nat.add_sub_cancel]
  have hupTo : upTo le rows r ≤ rows.length := List.countP_le_length
  have hlt := before_lt_upTo hle hr
  have hpages : (upTo le rows r - 1) / limit < n :=
    Nat.div_lt_of_lt_mul ((show upTo le rows r - 1 < n * limit by omega).trans_eq (Nat.mul_comm ..))
  have hless : p < (upTo le rows r - 1) / limit :=
    lt_of_le_of_ne (Nat.div_le_div_right (by omega)) hne
  have hapart := (List.nodup_flatMap.mp ((h sorters).nodup_iff.mpr hnodup)).2
  have hdisjoint := List.pairwise_iff_getElem.mp hapart p _ (by simp; omega) (by simpa) hless
  rw [List.getElem_range, List.getElem_range] at hdisjoint
  exact hdisjoint hfirst hlast

/-- The pages have every row exactly once, however the statements arrange rows that tie, just when
no rows that tie are apart, and there are pages enough. -/
theorem offsetPages_perm_iff (hle : TotalPreorder le) (hlimit : 0 < limit) (hnodup : rows.Nodup) :
    (∀ sorters, (offsetPages sorters le limit n rows).Perm rows) ↔
      Unbroken le limit rows ∧ rows.length ≤ n * limit := by
  constructor
  · intro h
    refine ⟨unbroken_of_offsetPages_perm hle hlimit hnodup h, ?_⟩
    rw [← (h fun _ => mergeSorter).length_eq]
    exact length_offsetPages_le
  · rintro ⟨hunbroken, hn⟩ sorters
    exact offsetPages_perm_of_unbroken hle hlimit hnodup hunbroken hn

end Lib.Sql
