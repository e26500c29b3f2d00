import Mathlib.Algebra.Order.Ring.Nat
import Mathlib.Data.List.Basic
import Mathlib.Data.Nat.Log

/-!
# A bounded broadcast channel

One ring buffer, many receivers. A sender never waits: a receiver that falls more than the
size of the ring behind loses the oldest messages, and learns so from its next `recv`.
-/

namespace Lib.Broadcast

variable {α : Type*}

structure Channel (α : Type*) where
  /-- Slots of the ring. Only the last `size` messages can still be read. -/
  size : Nat
  /-- Every message sent so far, oldest first. -/
  sent : List α

/-- A ring has a power of two of slots. -/
def channel (capacity : Nat) : Channel α := { size := 2 ^ Nat.clog 2 capacity, sent := [] }

def Channel.send (c : Channel α) (m : α) : Channel α := { c with sent := c.sent ++ [m] }

@[simp] theorem Channel.send_sent (c : Channel α) (m : α) : (c.send m).sent = c.sent ++ [m] := rfl

/-- A new receiver reads what is sent from now on. The number is its next position. -/
def Channel.subscribe (c : Channel α) : Nat := c.sent.length

inductive Recv (α : Type*) where
  | message (m : α)
  | lagged (missed : Nat)
  | empty

def Channel.recv (c : Channel α) (next : Nat) : Recv α × Nat :=
  if next + c.size < c.sent.length then
    (.lagged (c.sent.length - c.size - next), c.sent.length - c.size)
  else
    match c.sent[next]? with
    | some m => (.message m, next + 1)
    | none => (.empty, next)

theorem Channel.recv_cases (c : Channel α) (next : Nat) :
    (∃ m, c.recv next = (.message m, next + 1) ∧ c.sent[next]? = some m) ∨
    (∃ k, c.recv next = (.lagged k, c.sent.length - c.size) ∧
      next ≤ c.sent.length - c.size) ∨
    (c.recv next = (.empty, next) ∧ c.sent.length ≤ next) := by
  unfold Channel.recv
  split
  · exact Or.inr (Or.inl ⟨_, rfl, by omega⟩)
  · cases h : c.sent[next]? with
    | some m => exact Or.inl ⟨m, rfl, rfl⟩
    | none => exact Or.inr (Or.inr ⟨rfl, List.getElem?_eq_none_iff.mp h⟩)

/-! ## Reading to the end -/

/-- What a receiver gets until nothing is left, each message with its position. -/
def Channel.drain (c : Channel α) : Nat → Nat → List (Nat × α)
  | 0, _ => []
  | fuel + 1, next =>
    match c.recv next with
    | (.message m, next') => (next, m) :: c.drain fuel next'
    | (.lagged _, next') => c.drain fuel next'
    | (.empty, _) => []

variable {c : Channel α} {fuel next p : Nat} {m : α}

theorem mem_drain_sent (h : (p, m) ∈ c.drain fuel next) : c.sent[p]? = some m := by
  induction fuel generalizing next with
  | zero => cases h
  | succ fuel ih =>
    rw [Channel.drain] at h
    obtain ⟨m', hrecv, hm'⟩ | ⟨k, hrecv, -⟩ | ⟨hrecv, -⟩ := c.recv_cases next
    · rw [hrecv] at h
      rcases List.mem_cons.mp h with heq | h
      · cases heq
        exact hm'
      · exact ih h
    · rw [hrecv] at h
      exact ih h
    · rw [hrecv] at h
      cases h

/-- A message that is still in the ring is read, also by a receiver that has lost older ones. -/
theorem mem_drain (hm : c.sent[p]? = some m) (hring : c.sent.length ≤ p + c.size)
    (hnext : next ≤ p) (hfuel : p < next + fuel) : (p, m) ∈ c.drain fuel next := by
  have hp : p < c.sent.length := (List.getElem?_eq_some_iff.mp hm).1
  induction fuel generalizing next with
  | zero => omega
  | succ fuel ih =>
    rw [Channel.drain]
    by_cases hlag : next + c.size < c.sent.length
    · have hrecv : c.recv next =
          (.lagged (c.sent.length - c.size - next), c.sent.length - c.size) := if_pos hlag
      rw [hrecv]
      exact ih (by omega) (by omega)
    · have hrecv : c.recv next = (.message c.sent[next], next + 1) := by
        rw [Channel.recv, if_neg hlag, List.getElem?_eq_getElem (by omega)]
      rw [hrecv]
      rcases Nat.eq_or_lt_of_le hnext with rfl | hlt
      · rw [List.getElem?_eq_getElem (by omega), Option.some.injEq] at hm
        rw [hm]
        exact List.mem_cons_self
      · exact List.mem_cons_of_mem _ (ih (by omega) (by omega))

end Lib.Broadcast
