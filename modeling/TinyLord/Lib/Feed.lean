import Mathlib.Data.List.Infix
import Mathlib.Data.List.Nodup
import Mathlib.Order.Monotone.Basic

/-!
# Following a list that grows

A client asks again and again for what comes after the last element that it has. It is given some
of it each time, and the list may grow between the requests.
-/

namespace Lib.Feed

variable {α : Type*} [DecidableEq α]

/-- What comes after the cursor, or all of the list. -/
def after (cursor : Option α) (l : List α) : List α :=
  match cursor with
  | none => l
  | some c => (l.dropWhile (· ≠ c)).tail

/-- The cursor of the client after `n` requests, and what it has. `ask n` answers request `n`. -/
def follow (ask : ℕ → Option α → List α) (start : Option α) : ℕ → Option α × List α
  | 0 => (start, [])
  | n + 1 =>
    let (cursor, got) := follow ask start n
    let page := ask n cursor
    (page.getLast?.or cursor, got ++ page)

variable {l l' page rest : List α} {c : α} {cursor start : Option α}

theorem after_cons (h : c ∉ l) : after (some c) (l ++ c :: rest) = rest := by
  have hne : ∀ a ∈ l, decide (a ≠ c) = true := fun a ha =>
    decide_eq_true fun heq => h (heq ▸ ha)
  rw [after, List.dropWhile_append_of_pos hne, List.dropWhile_cons_of_neg (by simp), List.tail_cons]

theorem after_append (h : ∀ c ∈ cursor, c ∈ l) : after cursor (l ++ l') = after cursor l ++ l' := by
  cases cursor with
  | none => rfl
  | some c =>
    obtain ⟨before, rest, rfl, hc⟩ := List.eq_append_cons_of_mem (h c rfl)
    rw [List.append_assoc, List.cons_append, after_cons hc, after_cons hc]

theorem after_suffix (cursor : Option α) (l : List α) : after cursor l <:+ l := by
  cases cursor with
  | none => exact List.suffix_refl l
  | some c => exact (List.tail_suffix _).trans (List.dropWhile_suffix _)

theorem after_page (hnodup : l.Nodup) (hafter : after cursor l = page ++ rest) :
    after (page.getLast?.or cursor) l = rest := by
  cases hlast : page.getLast? with
  | none =>
    rw [List.getLast?_eq_none_iff.mp hlast, List.nil_append] at hafter
    exact hafter
  | some c =>
    obtain ⟨init, rfl⟩ := List.getLast?_eq_some_iff.mp hlast
    obtain ⟨before, hbefore⟩ := after_suffix cursor l
    rw [hafter, List.append_assoc, ← List.append_assoc] at hbefore
    rw [← hbefore] at hnodup ⊢
    have hc : c ∉ before ++ init := fun hmem =>
      (List.nodup_append.mp hnodup).2.2 c hmem c List.mem_cons_self rfl
    exact after_cons hc

theorem mem_page (hcursor : ∀ c ∈ cursor, c ∈ l) (hafter : after cursor l = page ++ rest) :
    ∀ c ∈ page.getLast?.or cursor, c ∈ l := by
  intro c hc
  cases hlast : page.getLast? with
  | none =>
    rw [hlast] at hc
    exact hcursor c hc
  | some a =>
    rw [hlast] at hc
    obtain rfl : a = c := Option.some.inj hc
    apply (after_suffix cursor l).subset
    rw [hafter]
    exact List.mem_append_left _ (List.mem_of_getLast? hlast)

theorem mem_after [Preorder α] {k : α} (hl : l.Pairwise (· < ·)) (hcursor : ∀ c ∈ cursor, c ∈ l) :
    k ∈ after cursor l ↔ k ∈ l ∧ ∀ c ∈ cursor, c < k := by
  cases cursor with
  | none => simp [after]
  | some c =>
    obtain ⟨before, rest, rfl, hc⟩ := List.eq_append_cons_of_mem (hcursor c rfl)
    rw [after_cons hc, List.mem_append, List.mem_cons]
    obtain ⟨-, hrest, hbefore⟩ := List.pairwise_append.mp hl
    constructor
    · intro hk
      refine ⟨Or.inr (Or.inr hk), ?_⟩
      rintro _ ⟨⟩
      exact (List.pairwise_cons.mp hrest).1 k hk
    · rintro ⟨hk | rfl | hk, hlt⟩
      · exact absurd (hbefore k hk c List.mem_cons_self) (hlt c rfl).asymm
      · exact absurd (hlt k rfl) (lt_irrefl k)
      · exact hk

/-! ## The client -/

/-- Request `n` is answered from list `n`, with the first elements after the cursor. The lists grow,
and the client starts at an element of the first one, or before it. -/
structure Served (ask : ℕ → Option α → List α) (lists : ℕ → List α) (start : Option α) : Prop where
  nodup : ∀ n, (lists n).Nodup
  grows : ∀ n, lists n <+: lists (n + 1)
  started : ∀ c ∈ start, c ∈ lists 0
  answers : ∀ n cursor, (∀ c ∈ cursor, c ∈ lists n) →
    ∃ limit > 0, ask n cursor = (after cursor (lists n)).take limit

variable {ask : ℕ → Option α → List α} {lists : ℕ → List α}

theorem Served.grown (h : Served ask lists start) {m n : ℕ} (hle : m ≤ n) :
    lists m <+: lists n := by
  induction n, hle using Nat.le_induction with
  | base => exact List.prefix_refl _
  | succ n _ ih => exact ih.trans (h.grows n)

theorem Served.mem_start (h : Served ask lists start) (n : ℕ) : ∀ c ∈ start, c ∈ lists n :=
  fun c hc => (h.grown (Nat.zero_le n)).subset (h.started c hc)

theorem Served.after_grown (h : Served ask lists start) {m n : ℕ} (hle : m ≤ n) :
    after start (lists m) <+: after start (lists n) := by
  obtain ⟨more, hmore⟩ := h.grown hle
  rw [← hmore, after_append (h.mem_start m)]
  exact List.prefix_append _ _

theorem Served.split (h : Served ask lists start) (n : ℕ) :
    (∀ c ∈ (follow ask start n).1, c ∈ lists n) ∧
    after start (lists n) = (follow ask start n).2 ++ after (follow ask start n).1 (lists n) := by
  induction n with
  | zero => exact ⟨h.started, rfl⟩
  | succ n ih =>
    obtain ⟨hcursor, hsplit⟩ := ih
    obtain ⟨limit, -, hpage⟩ := h.answers n _ hcursor
    obtain ⟨more, hmore⟩ := h.grows n
    rw [follow]
    generalize follow ask start n = r at hcursor hsplit hpage ⊢
    obtain ⟨cursor, got⟩ := r
    have hafter : after cursor (lists n) =
        ask n cursor ++ (after cursor (lists n)).drop limit := by
      rw [hpage, List.take_append_drop]
    have hmem := mem_page hcursor hafter
    refine ⟨fun c hc => (h.grows n).subset (hmem c hc), ?_⟩
    dsimp only at hsplit ⊢
    rw [← hmore, after_append (h.mem_start n), after_append hmem, after_page (h.nodup n) hafter,
      hsplit, List.append_assoc, List.append_assoc, ← List.append_assoc (ask n cursor), ← hafter]

theorem Served.got (h : Served ask lists start) (n : ℕ) :
    (follow ask start n).2 <+: after start (lists n) :=
  ⟨_, (h.split n).2.symm⟩

theorem Served.progress (h : Served ask lists start) (m k : ℕ) :
    min k (after start (lists m)).length ≤ (follow ask start (m + k)).2.length := by
  induction k with
  | zero => exact (Nat.zero_min _).le.trans (Nat.zero_le _)
  | succ k ih =>
    obtain ⟨hcursor, hsplit⟩ := h.split (m + k)
    obtain ⟨limit, hlimit, hpage⟩ := h.answers (m + k) _ hcursor
    have hgrown := (h.after_grown (Nat.le_add_right m k)).length_le
    rw [hsplit, List.length_append] at hgrown
    rw [← Nat.add_assoc, follow]
    generalize follow ask start (m + k) = r at ih hpage hgrown ⊢
    obtain ⟨cursor, got⟩ := r
    dsimp only at ih hpage hgrown ⊢
    rw [List.length_append, hpage, List.length_take]
    omega

/-- In the end the client has all that was in a list after its start, in the list's order. -/
theorem Served.complete (h : Served ask lists start) (m : ℕ) :
    ∃ N, ∀ n ≥ N, after start (lists m) <+: (follow ask start n).2 := by
  refine ⟨m + (after start (lists m)).length, fun n hn => ?_⟩
  have hle : m ≤ n := by omega
  have hprogress := h.progress m (n - m)
  rw [Nat.add_sub_cancel' hle, min_eq_right (by omega)] at hprogress
  exact List.prefix_of_prefix_length_le (h.after_grown hle) (h.got n) hprogress

end Lib.Feed
