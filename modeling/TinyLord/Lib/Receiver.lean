import TinyLord.Lib.Broadcast

/-!
# What a receiver gets

A receiver of a bounded broadcast channel reads place after place. What it gets is all that was
sent from some place on, in order and once each, without the places that newer messages have
overwritten before it came to them.
-/

namespace Lib.Broadcast

variable {α β : Type*}

structure Receiver where
  /-- The place it reads next. -/
  next : ℕ
  /-- For the statements only: the places it has lost. -/
  lost : List ℕ

def Channel.receiver (c : Channel α) : Receiver := ⟨c.subscribe, []⟩

/-- One `recv`, with the place of the message that it gets. -/
def Receiver.poll (r : Receiver) (c : Channel α) : Option (ℕ × α) × Receiver :=
  match c.recv r.next with
  | (.message m, next) => (some (r.next, m), { r with next })
  | (.lagged _, next) => (none, { next, lost := r.lost ++ List.range' r.next (next - r.next) })
  | (.empty, _) => (none, r)

/-- What was at the places from `first` on that the receiver has read. -/
def Receiver.got (r : Receiver) (c : Channel α) (first : ℕ) : List (ℕ × α) :=
  (List.range' first (r.next - first)).filterMap fun p =>
    if p ∈ r.lost then none else c.sent[p]?.map fun m => (p, m)

/-- The receiver is not ahead, and what it has lost is no longer in the ring. -/
structure Receiver.Behind (r : Receiver) (c : Channel α) : Prop where
  next_le : r.next ≤ c.sent.length
  lost : ∀ p ∈ r.lost, p < r.next ∧ p + c.size < c.sent.length

variable {r : Receiver} {c : Channel α} {first p : ℕ} {m : α}

theorem Receiver.poll_cases (r : Receiver) (c : Channel α) :
    (∃ m, r.poll c = (some (r.next, m), { r with next := r.next + 1 }) ∧
      c.sent[r.next]? = some m) ∨
    (∃ next, r.poll c = (none, ⟨next, r.lost ++ List.range' r.next (next - r.next)⟩) ∧
      r.next ≤ next ∧ next + c.size = c.sent.length) ∨
    (r.poll c = (none, r) ∧ c.sent.length ≤ r.next) := by
  unfold Receiver.poll Channel.recv
  by_cases hlag : r.next + c.size < c.sent.length
  · rw [if_pos hlag]
    exact Or.inr (Or.inl ⟨_, rfl, by omega, by omega⟩)
  · rw [if_neg hlag]
    cases hm : c.sent[r.next]? with
    | some m => exact Or.inl ⟨m, rfl, rfl⟩
    | none => exact Or.inr (Or.inr ⟨rfl, List.getElem?_eq_none_iff.mp hm⟩)

theorem Channel.receiver_behind (c : Channel α) : c.receiver.Behind c :=
  ⟨Nat.le_refl _, nofun⟩

theorem Receiver.Behind.send (h : r.Behind c) (m : α) : r.Behind (c.send m) := by
  have hlength : (c.send m).sent.length = c.sent.length + 1 := by simp
  refine ⟨?_, fun p hp => ⟨(h.lost p hp).1, ?_⟩⟩
  · have := h.next_le
    omega
  · have := (h.lost p hp).2
    have hsize : (c.send m).size = c.size := rfl
    omega

theorem Receiver.Behind.poll (h : r.Behind c) : (r.poll c).2.Behind c := by
  obtain ⟨m, hpoll, hm⟩ | ⟨next, hpoll, hle, hring⟩ | ⟨hpoll, -⟩ := r.poll_cases c
  · rw [hpoll]
    have hlt := (List.getElem?_eq_some_iff.mp hm).1
    exact ⟨hlt, fun p hp => ⟨Nat.lt_succ_of_lt (h.lost p hp).1, (h.lost p hp).2⟩⟩
  · rw [hpoll]
    refine ⟨by simp only; omega, ?_⟩
    intro p hp
    rcases List.mem_append.mp hp with hp | hp
    · exact ⟨(h.lost p hp).1.trans_le hle, (h.lost p hp).2⟩
    · have := List.mem_range'_1.mp hp
      simp only
      omega
  · rw [hpoll]
    exact h

/-! ## What it has read stays read -/

theorem mem_got : (p, m) ∈ r.got c first ↔
    first ≤ p ∧ p < r.next ∧ p ∉ r.lost ∧ c.sent[p]? = some m := by
  simp only [Receiver.got, List.mem_filterMap, List.mem_range'_1]
  constructor
  · rintro ⟨q, hq, heq⟩
    split at heq
    · cases heq
    · next hlost =>
      obtain ⟨m', hm', heq⟩ := Option.map_eq_some_iff.mp heq
      cases heq
      exact ⟨by omega, by omega, hlost, hm'⟩
  · rintro ⟨hfirst, hnext, hlost, hm⟩
    refine ⟨p, by omega, ?_⟩
    rw [if_neg hlost, hm]
    rfl

theorem got_grows {c' : Channel α} (h : r.next ≤ c.sent.length) (hsent : c.sent <+: c'.sent) :
    r.got c' first = r.got c first := by
  obtain ⟨more, hsent⟩ := hsent
  refine List.filterMap_congr fun p hp => ?_
  have hlt : p < c.sent.length := by
    have := List.mem_range'_1.mp hp
    omega
  rw [← hsent, List.getElem?_append_left hlt]

theorem got_poll (h : r.Behind c) (hfirst : first ≤ r.next) :
    (r.poll c).2.got c first = r.got c first ++ (r.poll c).1.toList := by
  obtain ⟨m, hpoll, hm⟩ | ⟨next, hpoll, hle, -⟩ | ⟨hpoll, -⟩ := r.poll_cases c
  · rw [hpoll]
    have hlost : r.next ∉ r.lost := fun hlost => Nat.lt_irrefl _ (h.lost _ hlost).1
    have hsplit : r.next + 1 - first = (r.next - first) + 1 := by omega
    have hplace : first + (r.next - first) = r.next := by omega
    simp only [Receiver.got, hsplit, List.range'_concat, List.filterMap_append, Nat.one_mul, hplace,
      List.filterMap_cons, if_neg hlost, hm, List.filterMap_nil, Option.map_some,
      Option.toList_some]
  · rw [hpoll]
    have hsplit : next - first = (r.next - first) + (next - r.next) := by omega
    have hplace : first + (r.next - first) = r.next := by omega
    have hskipped : (List.range' r.next (next - r.next)).filterMap (fun p =>
        if p ∈ r.lost ++ List.range' r.next (next - r.next) then none
        else c.sent[p]?.map fun m => (p, m)) = [] := by
      refine List.filterMap_eq_nil_iff.mpr fun p hp => ?_
      rw [if_pos (List.mem_append_right _ hp)]
    have hread : (List.range' first (r.next - first)).filterMap (fun p =>
        if p ∈ r.lost ++ List.range' r.next (next - r.next) then none
        else c.sent[p]?.map fun m => (p, m)) = r.got c first := by
      refine List.filterMap_congr fun p hp => ?_
      have hnew : p ∉ List.range' r.next (next - r.next) := by
        have := List.mem_range'_1.mp hp
        rw [List.mem_range'_1]
        omega
      simp only [List.mem_append, hnew, or_false]
    simp only [Receiver.got, hsplit, ← List.range'_append_1, hplace, List.filterMap_append,
      hskipped, hread, Option.toList_none]
  · rw [hpoll, Option.toList_none, List.append_nil]

theorem filterMap_places (l : List α) (first n : ℕ) (h : first + n = l.length) :
    (List.range' first n).filterMap (fun p => l[p]?) = l.drop first := by
  induction n generalizing first with
  | zero =>
    rw [Nat.add_zero] at h
    rw [List.drop_eq_nil_of_le (Nat.le_of_eq h.symm)]
    rfl
  | succ n ih =>
    have hlt : first < l.length := by omega
    rw [List.range'_succ, List.filterMap_cons, List.getElem?_eq_getElem hlt, ih _ (by omega),
      List.drop_eq_getElem_cons hlt]

/-- A receiver that has come to the end and has lost nothing since `first` has all of it. -/
theorem got_all (hend : r.next = c.sent.length) (hfirst : first ≤ r.next)
    (hlost : ∀ p ∈ r.lost, p < first) : (r.got c first).map Prod.snd = c.sent.drop first := by
  have hall : r.got c first =
      (List.range' first (c.sent.length - first)).filterMap fun p =>
        c.sent[p]?.map fun m => (p, m) := by
    rw [Receiver.got, hend]
    refine List.filterMap_congr fun p hp => ?_
    rw [if_neg]
    intro hp'
    have := List.mem_range'_1.mp hp
    have := hlost p hp'
    omega
  rw [hall, List.map_filterMap, ← filterMap_places c.sent first (c.sent.length - first) (by omega)]
  refine List.filterMap_congr fun p _ => ?_
  rw [Option.map_map]
  exact Option.map_id'

/-! ## A part of what it got -/

theorem exists_split {g : α → Option β} (l : List α) (k : ℕ) (hk : k ≤ (l.filterMap g).length) :
    ∃ j ≤ l.length, (l.take j).filterMap g = (l.filterMap g).take k ∧
      (l.drop j).filterMap g = (l.filterMap g).drop k := by
  induction l generalizing k with
  | nil => exact ⟨0, Nat.le_refl _, by simp, by simp⟩
  | cons x l ih =>
    cases k with
    | zero => exact ⟨0, Nat.zero_le _, rfl, rfl⟩
    | succ k =>
      cases hx : g x with
      | none =>
        rw [List.filterMap_cons_none hx] at hk ⊢
        obtain ⟨j, hj, htake, hdrop⟩ := ih (k + 1) hk
        refine ⟨j + 1, Nat.succ_le_succ hj, ?_, hdrop⟩
        rw [List.take_succ_cons, List.filterMap_cons_none hx, htake]
      | some y =>
        rw [List.filterMap_cons_some hx] at hk ⊢
        obtain ⟨j, hj, htake, hdrop⟩ := ih k (Nat.le_of_succ_le_succ hk)
        refine ⟨j + 1, Nat.succ_le_succ hj, ?_, hdrop⟩
        rw [List.take_succ_cons, List.filterMap_cons_some hx, htake, List.take_succ_cons]

theorem got_split {f : ℕ × α → Option β} {k : ℕ} (h : first ≤ r.next)
    (hk : k ≤ ((r.got c first).filterMap f).length) :
    ∃ mid, first ≤ mid ∧ mid ≤ r.next ∧
      ((r.got c first).filterMap f).take k =
        (Receiver.got { r with next := mid } c first).filterMap f ∧
      ((r.got c first).filterMap f).drop k = (r.got c mid).filterMap f := by
  simp only [Receiver.got, List.filterMap_filterMap] at hk ⊢
  obtain ⟨j, hj, htake, hdrop⟩ := exists_split _ k hk
  rw [List.length_range'] at hj
  refine ⟨first + j, by omega, by omega, ?_, ?_⟩
  · rw [← htake, List.take_range'_of_length_ge hj, Nat.add_sub_cancel_left]
  · rw [← hdrop, List.drop_range', Nat.mul_one, Nat.sub_add_eq]

end Lib.Broadcast
