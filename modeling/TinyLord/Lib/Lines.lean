import Mathlib.Data.List.Basic

/-!
# Reading a text in chunks, line by line

A reader gets a text in chunks. Each line goes to `handle` as soon as its end has come, and what
follows the last line end waits for the next chunk. How the text is cut makes no difference.
-/

namespace Lib.Lines

variable {α σ ι : Type*} {items : List ι}

structure Reading (α σ ι : Type*) where
  state : σ
  buffered : List α
  items : List ι

/-- A reading that continues another one, which gave `items`. -/
def Reading.behind (r : Reading α σ ι) (items : List ι) : Reading α σ ι :=
  { r with items := items ++ r.items }

@[simp] theorem behind_nil {r : Reading α σ ι} : r.behind [] = r := rfl

@[simp] theorem behind_behind {more : List ι} {r : Reading α σ ι} :
    (r.behind more).behind items = r.behind (items ++ more) := by
  simp [Reading.behind]

@[simp] theorem behind_state {r : Reading α σ ι} : (r.behind items).state = r.state := rfl

@[simp] theorem behind_buffered {r : Reading α σ ι} : (r.behind items).buffered = r.buffered := rfl

@[simp] theorem behind_items {r : Reading α σ ι} : (r.behind items).items = items ++ r.items := rfl

variable [DecidableEq α]

/-- The text before the first `stop`, and the text behind it. -/
def cutLine (stop : α) : List α → Option (List α × List α)
  | [] => none
  | c :: text =>
    if c = stop then some ([], text)
    else (cutLine stop text).map fun cut => (c :: cut.1, cut.2)

theorem cutLine_eq_some {stop : α} {text line rest : List α}
    (h : cutLine stop text = some (line, rest)) : text = line ++ stop :: rest ∧ stop ∉ line := by
  induction text generalizing line with
  | nil => cases h
  | cons c text ih =>
    by_cases hc : c = stop
    · simp only [cutLine, hc, if_true, Option.some.injEq, Prod.mk.injEq] at h
      obtain ⟨rfl, rfl⟩ := h
      exact ⟨by rw [hc, List.nil_append], List.not_mem_nil⟩
    · simp only [cutLine, hc, if_false, Option.map_eq_some_iff, Prod.mk.injEq] at h
      obtain ⟨⟨l, r⟩, hcut, rfl, rfl⟩ := h
      obtain ⟨rfl, hl⟩ := ih hcut
      exact ⟨rfl, by simp [Ne.symm hc, hl]⟩

theorem cutLine_line {stop : α} {line rest : List α} (h : stop ∉ line) :
    cutLine stop (line ++ stop :: rest) = some (line, rest) := by
  induction line with
  | nil => simp [cutLine]
  | cons c line ih =>
    rw [List.mem_cons, not_or] at h
    simp [cutLine, Ne.symm h.1, ih h.2]

theorem cutLine_open {stop : α} {text : List α} (h : stop ∉ text) : cutLine stop text = none := by
  cases hcut : cutLine stop text with
  | none => rfl
  | some cut =>
    rw [(cutLine_eq_some hcut).1] at h
    exact absurd (by simp) h

/-- Hands every whole line of the buffer to `handle`. -/
def drain (stop : α) (handle : σ → List α → σ × List ι) (s : σ) (buffered : List α) :
    Reading α σ ι :=
  match _h : cutLine stop buffered with
  | none => { state := s, buffered, items := [] }
  | some (line, rest) => (drain stop handle (handle s line).1 rest).behind (handle s line).2
  termination_by buffered.length
  decreasing_by
    rw [(cutLine_eq_some _h).1, List.length_append, List.length_cons]
    omega

def feed (stop : α) (handle : σ → List α → σ × List ι) (r : Reading α σ ι) (chunk : List α) :
    Reading α σ ι :=
  (drain stop handle r.state (r.buffered ++ chunk)).behind r.items

variable {stop : α} {handle : σ → List α → σ × List ι} {s : σ} {a b line rest : List α}

/-! ## One line -/

theorem drain_of_none (h : cutLine stop a = none) :
    drain stop handle s a = { state := s, buffered := a, items := [] } := by
  rw [drain]
  split
  · rfl
  · rename_i hcut
    rw [h] at hcut
    cases hcut

theorem drain_line (h : stop ∉ line) :
    drain stop handle s (line ++ stop :: rest) =
      (drain stop handle (handle s line).1 rest).behind (handle s line).2 := by
  have hline : cutLine stop (line ++ stop :: rest) = some (line, rest) := cutLine_line h
  rw [drain]
  split
  · rename_i hcut
    rw [hline] at hcut
    cases hcut
  · rename_i hcut
    rw [hline] at hcut
    cases hcut
    rfl

theorem drain_invariant {P : σ → Prop} (hstep : ∀ s line, P s → P (handle s line).1) (h : P s) :
    P (drain stop handle s a).state := by
  induction s, a using drain.induct stop handle with
  | case1 s a hcut => rwa [drain_of_none hcut]
  | case2 s a line rest hcut ih =>
    obtain ⟨rfl, hline⟩ := cutLine_eq_some hcut
    rw [drain_line hline, behind_state]
    exact ih (hstep s line h)

/-! ## Chunks -/

theorem feed_behind {r : Reading α σ ι} :
    feed stop handle (r.behind items) b = (feed stop handle r b).behind items := by
  simp [feed]

theorem drain_append :
    drain stop handle s (a ++ b) = feed stop handle (drain stop handle s a) b := by
  induction s, a using drain.induct stop handle with
  | case1 s a hcut => rw [drain_of_none hcut, feed, behind_nil]
  | case2 s a line rest hcut ih =>
    obtain ⟨rfl, hline⟩ := cutLine_eq_some hcut
    rw [List.append_assoc, List.cons_append, drain_line hline, drain_line hline, feed_behind, ih]

theorem items_prefix (h : a <+: b) :
    (drain stop handle s a).items <+: (drain stop handle s b).items := by
  obtain ⟨rest, rfl⟩ := h
  rw [drain_append]
  exact List.prefix_append _ _

/-- Only the text counts, not how it was cut. -/
theorem foldl_feed (chunks : List (List α)) (a : List α) :
    chunks.foldl (feed stop handle) (drain stop handle s a) =
      drain stop handle s (a ++ chunks.flatten) := by
  induction chunks generalizing a with
  | nil => simp
  | cons chunk chunks ih =>
    rw [List.foldl_cons, ← drain_append, ih, List.flatten_cons, List.append_assoc]

end Lib.Lines
