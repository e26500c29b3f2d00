import Mathlib.Data.List.Nodup

/-!
# Tables with a primary key

The rows of a table stand in the order they were inserted, and no two have the same key.
Every statement keeps that, so a table with a duplicate key cannot be built.
-/

namespace Lib

variable {ρ κ : Type*} {key : ρ → κ}

structure Table (key : ρ → κ) where
  rows : List ρ
  keys : (rows.map key).Nodup

namespace Table

variable {t t' : Table key} {p : ρ → Bool} {r x : ρ}

def empty : Table key := ⟨[], List.nodup_nil⟩

theorem eq_of_key (hr : r ∈ t.rows) (hx : x ∈ t.rows) (h : key r = key x) : r = x :=
  List.inj_on_of_nodup_map t.keys hr hx h

/-! ## SELECT, DELETE, UPDATE -/

def find? (t : Table key) (p : ρ → Bool) : Option ρ := t.rows.find? p

def any (t : Table key) (p : ρ → Bool) : Bool := t.rows.any p

def delete (t : Table key) (p : ρ → Bool) : Table key :=
  ⟨t.rows.filter fun r => !p r, t.keys.sublist (List.filter_sublist.map key)⟩

/-- The rows that pass are changed, and keep their keys. -/
def update (t : Table key) (p : ρ → Bool) (f : ρ → ρ) (hf : ∀ r, key (f r) = key r) : Table key :=
  ⟨t.rows.map fun r => if p r then f r else r, by
    have hkey : key ∘ (fun r => if p r then f r else r) = key := by
      funext r
      simp only [Function.comp_apply]
      split
      · exact hf r
      · rfl
    rw [List.map_map, hkey]
    exact t.keys⟩

theorem mem_of_find? (h : t.find? p = some r) : r ∈ t.rows ∧ p r = true :=
  ⟨List.mem_of_find?_eq_some h, List.find?_some h⟩

theorem find?_of_only (hr : r ∈ t.rows) (hp : p r = true)
    (honly : ∀ x ∈ t.rows, p x = true → x = r) : t.find? p = some r := by
  cases h : t.find? p with
  | none =>
    have := List.find?_eq_none.mp h r hr
    exact absurd hp this
  | some x =>
    obtain ⟨hx, hpx⟩ := mem_of_find? h
    rw [honly x hx hpx]

theorem any_iff : t.any p = true ↔ ∃ r ∈ t.rows, p r = true := List.any_eq_true

@[simp] theorem mem_delete : x ∈ (t.delete p).rows ↔ x ∈ t.rows ∧ p x = false := by
  simp [delete]

theorem delete_of_not_any (h : t.any p = false) : t.delete p = t := by
  have hrows : (t.rows.filter fun r => !p r) = t.rows := by
    simpa [any] using h
  cases t
  simpa only [delete, mk.injEq] using hrows

/-! ## INSERT -/

theorem nodup_append_row {rows : List ρ} (h : (rows.map key).Nodup)
    (hr : key r ∉ rows.map key) : ((rows ++ [r]).map key).Nodup := by
  rw [List.map_append, List.map_singleton]
  exact h.append (List.nodup_singleton _) (by simpa using hr)

variable [DecidableEq κ]

/-- The row goes to the end. Nothing when its key is taken. -/
def insert (t : Table key) (r : ρ) : Option (Table key) :=
  if h : key r ∈ t.rows.map key then none else some ⟨t.rows ++ [r], nodup_append_row t.keys h⟩

/-- The row takes the place of the row with its key, or goes to the end. -/
def upsert (t : Table key) (r : ρ) : Table key :=
  if h : key r ∈ t.rows.map key then
    ⟨t.rows.map fun x => if key x = key r then r else x, by
      have hkey : key ∘ (fun x => if key x = key r then r else x) = key := by
        funext x
        simp only [Function.comp_apply]
        split
        · next hx => exact hx.symm
        · rfl
      rw [List.map_map, hkey]
      exact t.keys⟩
  else ⟨t.rows ++ [r], nodup_append_row t.keys h⟩

theorem mem_insert (h : t.insert r = some t') : x ∈ t'.rows ↔ x ∈ t.rows ∨ x = r := by
  unfold insert at h
  split at h
  · cases h
  · cases h
    simp

theorem insert_fresh (h : t.insert r = some t') (hx : x ∈ t.rows) : key x ≠ key r := by
  intro hkey
  unfold insert at h
  split at h
  · cases h
  · next hr => exact hr (hkey ▸ List.mem_map_of_mem hx)

theorem exists_insert (h : ∀ x ∈ t.rows, key x ≠ key r) : ∃ t', t.insert r = some t' := by
  have hr : key r ∉ t.rows.map key := by
    intro hr
    obtain ⟨x, hx, hkey⟩ := List.mem_map.mp hr
    exact h x hx hkey
  rw [insert, dif_neg hr]
  exact ⟨_, rfl⟩

theorem mem_upsert : x ∈ (t.upsert r).rows ↔ (x ∈ t.rows ∧ key x ≠ key r) ∨ x = r := by
  unfold upsert
  split
  · next hr =>
    obtain ⟨y, hy, hkey⟩ := List.mem_map.mp hr
    simp only [List.mem_map]
    constructor
    · rintro ⟨z, hz, rfl⟩
      split
      · exact Or.inr rfl
      · next hne => exact Or.inl ⟨hz, hne⟩
    · rintro (⟨hx, hne⟩ | rfl)
      · exact ⟨x, hx, if_neg hne⟩
      · exact ⟨y, hy, if_pos hkey⟩
  · next hr =>
    simp only [List.mem_append, List.mem_singleton]
    constructor
    · rintro (hx | rfl)
      · exact Or.inl ⟨hx, fun hkey => hr (hkey ▸ List.mem_map_of_mem hx)⟩
      · exact Or.inr rfl
    · rintro (⟨hx, -⟩ | rfl)
      · exact Or.inl hx
      · exact Or.inr rfl

end Table

end Lib
