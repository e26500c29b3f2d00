import Mathlib.Logic.Function.Basic

/-!
# Paths and inodes

A path leads to an inode, and an open file holds on to its inode. After an unlink the path
leads nowhere, while what is open goes on with the inode it has.
-/

namespace Lib.Inodes

variable {ι δ : Type*}

/-- Files over paths `ι` with entries `δ`. An inode is known by the path that it was created at
and a number. The numbers from `fresh` on were never used. -/
structure Disk (ι δ : Type*) where
  path : ι → Option Nat
  content : ι → Nat → List δ
  fresh : Nat
  bounded : ∀ p n, path p = some n → n < fresh

namespace Disk

variable {d : Disk ι δ} {p q r : ι} {n m k : Nat} {x y : δ}

def read (d : Disk ι δ) (p : ι) : List δ := (d.path p).elim [] (d.content p)

theorem read_of_path (h : d.path p = some n) : d.read p = d.content p n := by simp [read, h]

theorem read_of_none (h : d.path p = none) : d.read p = [] := by simp [read, h]

variable [DecidableEq ι]

/-- Gives the open file another content. -/
def fill (d : Disk ι δ) (p : ι) (n : Nat) (xs : List δ) : Disk ι δ :=
  { d with content := Function.update d.content p (Function.update (d.content p) n xs) }

theorem fill_content_self (xs : List δ) : (d.fill p n xs).content p n = xs := by simp [fill]

theorem fill_content_of_ne (xs : List δ) (h : ¬ (q = p ∧ m = n)) :
    (d.fill p n xs).content q m = d.content q m := by
  by_cases hq : q = p
  · subst hq
    have hm : m ≠ n := fun hm => h ⟨rfl, hm⟩
    simp [fill, hm]
  · simp [fill, hq]

/-! ## Entries of open files -/

/-- Appends to an open file, wherever its path leads. -/
def append (d : Disk ι δ) (p : ι) (n : Nat) (x : δ) : Disk ι δ :=
  d.fill p n (d.content p n ++ [x])

/-- Moves the entries of one open file to the end of another. -/
def pour (d : Disk ι δ) (p : ι) (n : Nat) (q : ι) (m : Nat) : Disk ι δ :=
  (d.fill q m (d.content q m ++ d.content p n)).fill p n []

theorem mem_append : y ∈ (d.append p n x).content q m ↔
    y ∈ d.content q m ∨ ((q = p ∧ m = n) ∧ y = x) := by
  by_cases h : q = p ∧ m = n
  · obtain ⟨rfl, rfl⟩ := h
    simp [append, fill_content_self]
  · simp [append, fill_content_of_ne _ h, h]

theorem pour_from : (d.pour p n q m).content p n = [] := fill_content_self []

theorem pour_to (h : q ≠ p) :
    (d.pour p n q m).content q m = d.content q m ++ d.content p n := by
  rw [pour, fill_content_of_ne _ fun heq => h heq.1, fill_content_self]

theorem pour_other (hfrom : ¬ (r = p ∧ k = n)) (hto : ¬ (r = q ∧ k = m)) :
    (d.pour p n q m).content r k = d.content r k := by
  rw [pour, fill_content_of_ne _ hfrom, fill_content_of_ne _ hto]

/-! ## Open and unlink -/

/-- Opens the file at the path, and creates an empty one when there is none. -/
def create (d : Disk ι δ) (p : ι) : Disk ι δ × Nat :=
  match h : d.path p with
  | some n => (d, n)
  | none =>
    ({ path := Function.update d.path p (some d.fresh)
       content := (d.fill p d.fresh []).content
       fresh := d.fresh + 1
       bounded := by
        intro q n hq
        by_cases hqp : q = p
        · subst hqp
          rw [Function.update_self, Option.some.injEq] at hq
          omega
        · rw [Function.update_of_ne hqp] at hq
          exact Nat.lt_succ_of_lt (d.bounded q n hq) },
      d.fresh)

def unlink (d : Disk ι δ) (p : ι) : Disk ι δ where
  path := Function.update d.path p none
  content := d.content
  fresh := d.fresh
  bounded := by
    intro q n hq
    by_cases hqp : q = p
    · subst hqp
      rw [Function.update_self] at hq
      cases hq
    · rw [Function.update_of_ne hqp] at hq
      exact d.bounded q n hq

theorem create_inode : d.path p = some (d.create p).2 ∨ (d.path p = none ∧ (d.create p).2 = d.fresh) := by
  unfold create
  split
  · next h => exact Or.inl h
  · next h => exact Or.inr ⟨h, rfl⟩

theorem create_path_self : (d.create p).1.path p = some (d.create p).2 := by
  unfold create
  split
  · assumption
  · exact Function.update_self ..

theorem create_path_of_ne (h : q ≠ p) : (d.create p).1.path q = d.path q := by
  unfold create
  split
  · rfl
  · exact Function.update_of_ne h ..

theorem create_content (h : n < d.fresh) : (d.create p).1.content q n = d.content q n := by
  unfold create
  split
  · rfl
  · exact fill_content_of_ne [] fun heq => Nat.ne_of_lt h heq.2

theorem create_new (h : d.path p = none) :
    (d.create p).2 = d.fresh ∧ (d.create p).1.content p d.fresh = [] := by
  unfold create
  split
  · next n hn => cases h.symm.trans hn
  · exact ⟨rfl, fill_content_self []⟩

theorem create_old (h : d.path p = some n) : d.create p = (d, n) := by
  unfold create
  split
  · next m hm =>
    cases h.symm.trans hm
    rfl
  · next hn => cases h.symm.trans hn

theorem create_fresh : d.fresh ≤ (d.create p).1.fresh := by
  unfold create
  split
  · exact Nat.le_refl _
  · exact Nat.le_succ _

theorem create_read : (d.create p).1.read q = d.read q := by
  by_cases hq : q = p
  · subst hq
    cases h : d.path q with
    | some n => rw [create_old h]
    | none =>
      obtain ⟨hn, hempty⟩ := create_new h
      rw [read_of_path create_path_self, hn, hempty, read_of_none h]
  · unfold read
    rw [create_path_of_ne hq]
    cases h : d.path q with
    | none => rfl
    | some n => exact create_content (d.bounded q n h)

@[simp] theorem unlink_path_self : (d.unlink p).path p = none := Function.update_self ..

theorem unlink_path_of_ne (h : q ≠ p) : (d.unlink p).path q = d.path q :=
  Function.update_of_ne h ..

theorem unlink_path_none (h : d.path q = none) : (d.unlink p).path q = none := by
  by_cases hq : q = p
  · subst hq
    exact unlink_path_self
  · rw [unlink_path_of_ne hq, h]

theorem unlink_path_some (h : (d.unlink p).path q = some n) : d.path q = some n := by
  by_cases hq : q = p
  · subst hq
    rw [unlink_path_self] at h
    cases h
  · rwa [unlink_path_of_ne hq] at h

end Disk

end Lib.Inodes
