import Mathlib.Data.List.Nodup
import Mathlib.Data.List.Sublists

/-!
# Linearizable histories

Clients call the operations of one object, and calls overlap. A history is linearizable when the
operations could have been done one at a time, each between its call and its answer.
-/

namespace Lib.Linear

/-- What clients see. -/
inductive Event (ι κ ρ : Type*) where
  | invoke (i : ι) (op : κ)
  | respond (i : ι) (r : ρ)

/-- An operation that is done, with its answer. -/
structure Done (ι κ ρ : Type*) where
  id : ι
  op : κ
  answer : ρ

variable {ι κ ρ σ : Type*} {next : σ → κ → ρ → σ → Prop} {s t u : σ}

/-- The operations are done one after the other, as the object allows. -/
inductive Sequential (next : σ → κ → ρ → σ → Prop) (s : σ) : List (Done ι κ ρ) → σ → Prop
  | nil : Sequential next s [] s
  | concat {ds : List (Done ι κ ρ)} {t u : σ} (d : Done ι κ ρ) : Sequential next s ds t →
      next t d.op d.answer u → Sequential next s (ds ++ [d]) u

/-- The order `ds` explains the history. An operation without an answer may be done or not. -/
structure Explains (next : σ → κ → ρ → σ → Prop) (s : σ) (ds : List (Done ι κ ρ))
    (history : List (Event ι κ ρ)) : Prop where
  legal : ∃ t, Sequential next s ds t
  once : (ds.map Done.id).Nodup
  invoked : ∀ d ∈ ds, .invoke d.id d.op ∈ history
  answered : ∀ i r, .respond i r ∈ history → ∃ d ∈ ds, d.id = i ∧ d.answer = r
  /-- What was answered before another was called is done before it. -/
  realTime : ∀ d ∈ ds, ∀ e ∈ ds, ∀ r op,
    [.respond d.id r, .invoke e.id op].Sublist history → [d, e].Sublist ds

def Linearizable (next : σ → κ → ρ → σ → Prop) (s : σ) (history : List (Event ι κ ρ)) : Prop :=
  ∃ ds, Explains next s ds history

/-! ## Commit points -/

/-- The history, and in it the points at which the operations take effect. -/
inductive Mark (ι κ ρ : Type*) where
  | invoke (i : ι) (op : κ)
  | commit (d : Done ι κ ρ)
  | respond (i : ι) (r : ρ)

def Mark.event? : Mark ι κ ρ → Option (Event ι κ ρ)
  | .invoke i op => some (.invoke i op)
  | .commit _ => none
  | .respond i r => some (.respond i r)

def Mark.done? : Mark ι κ ρ → Option (Done ι κ ρ)
  | .commit d => some d
  | _ => none

def history (marks : List (Mark ι κ ρ)) : List (Event ι κ ρ) := marks.filterMap Mark.event?

def commits (marks : List (Mark ι κ ρ)) : List (Done ι κ ρ) := marks.filterMap Mark.done?

def committed (marks : List (Mark ι κ ρ)) : List ι := (commits marks).map Done.id

/-- Each operation is called once, commits at most once after its call, and is answered after
that with what it has committed. -/
inductive Timed : List (Mark ι κ ρ) → Prop
  | nil : Timed []
  | invoke {marks : List (Mark ι κ ρ)} (i : ι) (op : κ) : Timed marks →
      (∀ op', .invoke i op' ∉ marks) → Timed (marks ++ [.invoke i op])
  | commit {marks : List (Mark ι κ ρ)} (d : Done ι κ ρ) : Timed marks →
      .invoke d.id d.op ∈ marks → d.id ∉ committed marks → Timed (marks ++ [.commit d])
  | respond {marks : List (Mark ι κ ρ)} (d : Done ι κ ρ) : Timed marks →
      .commit d ∈ marks → Timed (marks ++ [.respond d.id d.answer])

variable {marks : List (Mark ι κ ρ)} {d e : Done ι κ ρ} {i : ι} {op : κ} {r : ρ}

@[simp] theorem history_concat (marks : List (Mark ι κ ρ)) (m : Mark ι κ ρ) :
    history (marks ++ [m]) = history marks ++ m.event?.toList := by
  unfold history
  cases h : m.event? <;> simp [List.filterMap_append, h]

@[simp] theorem commits_concat (marks : List (Mark ι κ ρ)) (m : Mark ι κ ρ) :
    commits (marks ++ [m]) = commits marks ++ m.done?.toList := by
  unfold commits
  cases h : m.done? <;> simp [List.filterMap_append, h]

theorem mem_commits : d ∈ commits marks ↔ .commit d ∈ marks := by
  unfold commits
  rw [List.mem_filterMap]
  constructor
  · rintro ⟨m, hm, h⟩
    cases m with
    | commit d' =>
      cases h
      exact hm
    | invoke | respond => cases h
  · exact fun h => ⟨_, h, rfl⟩

theorem invoke_mem_history : .invoke i op ∈ history marks ↔ .invoke i op ∈ marks := by
  unfold history
  rw [List.mem_filterMap]
  constructor
  · rintro ⟨m, hm, h⟩
    cases m with
    | invoke i' op' =>
      cases h
      exact hm
    | commit => cases h
    | respond => cases h
  · exact fun h => ⟨_, h, rfl⟩

theorem respond_mem_history : .respond i r ∈ history marks ↔ .respond i r ∈ marks := by
  unfold history
  rw [List.mem_filterMap]
  constructor
  · rintro ⟨m, hm, h⟩
    cases m with
    | respond i' r' =>
      cases h
      exact hm
    | commit => cases h
    | invoke => cases h
  · exact fun h => ⟨_, h, rfl⟩

theorem Timed.once (h : Timed marks) : (committed marks).Nodup := by
  unfold committed
  induction h with
  | nil => exact List.nodup_nil
  | invoke i op _ _ ih => simpa [Mark.done?] using ih
  | commit d _ _ hnew ih =>
    rw [commits_concat, List.map_append]
    refine ih.append (List.nodup_singleton _) ?_
    rw [Mark.done?, Option.toList_some, List.map_singleton, List.disjoint_singleton]
    exact hnew
  | respond d _ _ ih => simpa [Mark.done?] using ih

theorem Timed.invoked (h : Timed marks) (hd : .commit d ∈ marks) : .invoke d.id d.op ∈ marks := by
  induction h with
  | nil => cases hd
  | invoke i op _ _ ih | respond d' _ _ ih =>
    exact List.mem_append_left _ (ih (by simpa using hd))
  | commit d' _ hinv _ ih =>
    rcases List.mem_append.mp hd with hd | hd
    · exact List.mem_append_left _ (ih hd)
    · cases List.mem_singleton.mp hd
      exact List.mem_append_left _ hinv

theorem Timed.answered (h : Timed marks) (hr : .respond i r ∈ marks) :
    ∃ d, .commit d ∈ marks ∧ d.id = i ∧ d.answer = r := by
  induction h with
  | nil => cases hr
  | invoke i op _ _ ih | commit d' _ _ _ ih =>
    obtain ⟨d, hd, hdr⟩ := ih (by simpa using hr)
    exact ⟨d, List.mem_append_left _ hd, hdr⟩
  | respond d' _ hd' ih =>
    rcases List.mem_append.mp hr with hr | hr
    · obtain ⟨d, hd, hdr⟩ := ih hr
      exact ⟨d, List.mem_append_left _ hd, hdr⟩
    · cases List.mem_singleton.mp hr
      exact ⟨d', List.mem_append_left _ hd', rfl, rfl⟩

theorem pair_sublist_concat {α : Type*} {x y z : α} {l : List α}
    (h : [x, y].Sublist (l ++ [z])) : [x, y].Sublist l ∨ (x ∈ l ∧ y = z) := by
  have hrev := h.reverse
  rw [List.reverse_append, List.reverse_singleton, List.singleton_append,
    List.sublist_cons_iff] at hrev
  rcases hrev with hrev | ⟨rest, heq, hrest⟩
  · exact Or.inl (by simpa using hrev.reverse)
  · obtain ⟨rfl, rfl⟩ := List.cons_eq_cons.mp heq
    exact Or.inr ⟨by simpa using hrest, rfl⟩

theorem Timed.realTime (h : Timed marks) (hd : d ∈ commits marks) (he : e ∈ commits marks)
    (hsub : [.respond d.id r, .invoke e.id op].Sublist (history marks)) :
    [d, e].Sublist (commits marks) := by
  induction h with
  | nil => cases hd
  | invoke i op' ht hnew ih =>
    simp only [commits_concat, Mark.done?, Option.toList_none, List.append_nil] at hd he ⊢
    rw [history_concat] at hsub
    rcases pair_sublist_concat hsub with hsub | ⟨-, hlast⟩
    · exact ih hd he hsub
    · -- What is called only now has not committed.
      cases hlast
      exact absurd (ht.invoked (mem_commits.mp he)) (hnew e.op)
  | @commit m d' ht hinv hnew ih =>
    rw [history_concat, Mark.event?, Option.toList_none, List.append_nil] at hsub
    rw [commits_concat] at hd he ⊢
    have hresp := respond_mem_history.mp (hsub.subset List.mem_cons_self)
    obtain ⟨d'', hd'', hid, -⟩ := ht.answered hresp
    have hold : d ∈ commits m := by
      rcases List.mem_append.mp hd with hd | hd
      · exact hd
      · cases List.mem_singleton.mp hd
        exact absurd (List.mem_map.mpr ⟨d'', mem_commits.mpr hd'', hid⟩) hnew
    rcases List.mem_append.mp he with he | he
    · exact (ih hold he hsub).trans (List.sublist_append_left _ _)
    · obtain rfl := List.mem_singleton.mp he
      exact (List.singleton_sublist.mpr hold).append (List.Sublist.refl [e])
  | respond d' ht _ ih =>
    simp only [commits_concat, Mark.done?, Option.toList_none, List.append_nil] at hd he ⊢
    rw [history_concat] at hsub
    rcases pair_sublist_concat hsub with hsub | ⟨-, hlast⟩
    · exact ih hd he hsub
    · cases hlast

/-- The order of the commit points explains what the clients see. -/
theorem Timed.linearizable (h : Timed marks) (hlegal : Sequential next s (commits marks) t) :
    Linearizable next s (history marks) := by
  refine ⟨commits marks, ⟨t, hlegal⟩, h.once, ?_, ?_, ?_⟩
  · intro d hd
    exact invoke_mem_history.mpr (h.invoked (mem_commits.mp hd))
  · intro i r hr
    obtain ⟨d, hd, hdr⟩ := h.answered (respond_mem_history.mp hr)
    exact ⟨d, mem_commits.mpr hd, hdr⟩
  · intro d hd e he r op hsub
    exact h.realTime hd he hsub

/-! ## Many commit points at once -/

theorem commits_commits (marks : List (Mark ι κ ρ)) (ds : List (Done ι κ ρ)) :
    commits (marks ++ ds.map .commit) = commits marks ++ ds := by
  induction ds using List.reverseRecOn with
  | nil => rw [List.map_nil, List.append_nil, List.append_nil]
  | append_singleton ds d ih =>
    rw [List.map_append, ← List.append_assoc, List.map_singleton, commits_concat, ih,
      List.append_assoc]
    rfl

theorem Timed.commits {ds : List (Done ι κ ρ)} (h : Timed marks)
    (hinv : ∀ d ∈ ds, .invoke d.id d.op ∈ marks) (hnew : ∀ d ∈ ds, d.id ∉ committed marks)
    (honce : (ds.map Done.id).Nodup) : Timed (marks ++ ds.map .commit) := by
  induction ds using List.reverseRecOn with
  | nil => rwa [List.map_nil, List.append_nil]
  | append_singleton ds d ih =>
    rw [List.forall_mem_append, List.forall_mem_singleton] at hinv hnew
    rw [List.map_append, List.nodup_append] at honce
    rw [List.map_append, ← List.append_assoc, List.map_singleton]
    refine .commit d (ih hinv.1 hnew.1 honce.1) (List.mem_append_left _ hinv.2) ?_
    rw [committed, commits_commits, List.map_append, List.mem_append]
    rintro (hmem | hmem)
    · exact hnew.2 hmem
    · exact honce.2.2 _ hmem _ (List.mem_singleton_self _) rfl

theorem Sequential.trans {ds es : List (Done ι κ ρ)} (h : Sequential next s ds t)
    (h' : Sequential next t es u) : Sequential next s (ds ++ es) u := by
  induction h' with
  | nil => rwa [List.append_nil]
  | concat d _ hnext ih =>
    rw [← List.append_assoc]
    exact .concat d ih hnext

end Lib.Linear
