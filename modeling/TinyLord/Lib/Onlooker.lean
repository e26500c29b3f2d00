import TinyLord.Lib.Linear

/-!
# Clients that look on

Some clients do the operations of an object, and others only look at its state. What all of them see
is a merge of what either sees, and it is linearizable when each look is at the state of its time.
-/

namespace Lib.Linear

variable {ι ι' κ κ' ρ ρ' σ : Type*} {next : σ → κ → ρ → σ → Prop} {look : σ → κ' → ρ' → Prop}
  {s t u : σ}

/-- The object together with those that look at it. -/
inductive Beside (next : σ → κ → ρ → σ → Prop) (look : σ → κ' → ρ' → Prop) (s : σ) :
    κ ⊕ κ' → ρ ⊕ ρ' → σ → Prop
  | next {op : κ} {r : ρ} {t : σ} : next s op r t → Beside next look s (.inl op) (.inl r) t
  | look {op : κ'} {r : ρ'} : look s op r → Beside next look s (.inr op) (.inr r) s

section

variable {I K R : Type*} (f : ι → I) (g : κ → K) (h : ρ → R)

def Done.map (d : Done ι κ ρ) : Done I K R := ⟨f d.id, g d.op, h d.answer⟩

def Mark.map : Mark ι κ ρ → Mark I K R
  | .invoke i op => .invoke (f i) (g op)
  | .commit d => .commit (d.map f g h)
  | .respond i r => .respond (f i) (h r)

end

def Done.left : Done ι κ ρ → Done (ι ⊕ ι') (κ ⊕ κ') (ρ ⊕ ρ') := Done.map .inl .inl .inl

def Done.right : Done ι' κ' ρ' → Done (ι ⊕ ι') (κ ⊕ κ') (ρ ⊕ ρ') := Done.map .inr .inr .inr

def Mark.left : Mark ι κ ρ → Mark (ι ⊕ ι') (κ ⊕ κ') (ρ ⊕ ρ') := Mark.map .inl .inl .inl

def Mark.right : Mark ι' κ' ρ' → Mark (ι ⊕ ι') (κ ⊕ κ') (ρ ⊕ ρ') := Mark.map .inr .inr .inr

/-! ## One operation after the other -/

/-- Operation and answer tell the next state. -/
def Functional (next : σ → κ → ρ → σ → Prop) : Prop :=
  ∀ s op r t u, next s op r t → next s op r u → t = u

variable {ds es : List (Done ι κ ρ)} {d : Done ι κ ρ}

theorem Sequential.of_nil (h : Sequential next s ds t) (hds : ds = []) : s = t := by
  cases h with
  | nil => rfl
  | concat d _ _ => simp at hds

theorem Sequential.of_concat (h : Sequential next s es u) (hes : es = ds ++ [d]) :
    ∃ t, Sequential next s ds t ∧ next t d.op d.answer u := by
  cases h with
  | nil => simp at hes
  | concat d' hds hd =>
    obtain ⟨rfl, heq⟩ := List.append_inj' hes rfl
    cases heq
    exact ⟨_, hds, hd⟩

theorem Sequential.functional (hnext : Functional next) (h : Sequential next s ds t)
    (h' : Sequential next s ds u) : t = u := by
  induction h generalizing u with
  | nil => exact h'.of_nil rfl
  | concat d _ hd ih =>
    obtain ⟨v, hds', hd'⟩ := h'.of_concat rfl
    cases ih hds'
    exact hnext _ _ _ _ _ hd hd'

theorem Sequential.split (h : Sequential next s (ds ++ es) u) :
    ∃ t, Sequential next s ds t ∧ Sequential next t es u := by
  induction es using List.reverseRecOn generalizing u with
  | nil => exact ⟨u, by simpa using h, .nil⟩
  | append_singleton es d ih =>
    rw [← List.append_assoc] at h
    obtain ⟨v, hes, hd⟩ := h.of_concat rfl
    obtain ⟨t, hds, hes⟩ := ih hes
    exact ⟨t, hds, .concat d hes hd⟩

theorem Sequential.after (hnext : Functional next) (hds : Sequential next s ds t)
    (h : Sequential next s (ds ++ es) u) : Sequential next t es u := by
  obtain ⟨v, hds', hes⟩ := h.split
  cases hds.functional hnext hds'
  exact hes

theorem Sequential.left (h : Sequential next s ds t) :
    Sequential (Beside next look) s
      (ds.map (Done.left : Done ι κ ρ → Done (ι ⊕ ι') (κ ⊕ κ') (ρ ⊕ ρ'))) t := by
  induction h with
  | nil => exact .nil
  | concat d _ hd ih =>
    rw [List.map_append]
    exact .concat d.left ih (.next hd)

/-! ## A merge of two histories -/

inductive Merged : List (Mark ι κ ρ) → List (Mark ι' κ' ρ') →
    List (Mark (ι ⊕ ι') (κ ⊕ κ') (ρ ⊕ ρ')) → Prop
  | nil : Merged [] [] []
  | left {xs ys zs} (m : Mark ι κ ρ) : Merged xs ys zs → Merged (xs ++ [m]) ys (zs ++ [m.left])
  | right {xs ys zs} (m : Mark ι' κ' ρ') : Merged xs ys zs →
      Merged xs (ys ++ [m]) (zs ++ [m.right])

variable {xs xs' : List (Mark ι κ ρ)} {ys : List (Mark ι' κ' ρ')}
  {zs : List (Mark (ι ⊕ ι') (κ ⊕ κ') (ρ ⊕ ρ'))} {m : Mark (ι ⊕ ι') (κ ⊕ κ') (ρ ⊕ ρ')}

theorem Merged.mem (h : Merged xs ys zs) :
    m ∈ zs ↔ (∃ x ∈ xs, x.left = m) ∨ ∃ y ∈ ys, y.right = m := by
  induction h with
  | nil => simp
  | left x _ ih =>
    simp only [List.mem_append, List.mem_singleton, ih, or_and_right, exists_or, exists_eq_left]
    rw [or_right_comm, eq_comm]
  | right y _ ih =>
    simp only [List.mem_append, List.mem_singleton, ih, or_and_right, exists_or, exists_eq_left]
    rw [or_assoc, eq_comm]

theorem Merged.lefts (h : Merged xs ys zs) (more : List (Mark ι κ ρ)) :
    Merged (xs ++ more) ys (zs ++ more.map Mark.left) := by
  induction more using List.reverseRecOn with
  | nil => simpa using h
  | append_singleton more m ih =>
    rw [List.map_append, ← List.append_assoc, ← List.append_assoc]
    exact .left m ih

/-- What a mark needs to have before it. -/
def Mark.After (marks : List (Mark ι κ ρ)) : Mark ι κ ρ → Prop
  | .invoke i _ => ∀ op, .invoke i op ∉ marks
  | .commit d => .invoke d.id d.op ∈ marks ∧ d.id ∉ committed marks
  | .respond i r => ∃ d, .commit d ∈ marks ∧ d.id = i ∧ d.answer = r

theorem Timed.of_concat {m : Mark ι κ ρ} (h : Timed xs') (hxs : xs' = xs ++ [m]) :
    Timed xs ∧ m.After xs := by
  cases h with
  | nil => simp at hxs
  | invoke i op ht hnew =>
    obtain ⟨rfl, heq⟩ := List.append_inj' hxs rfl
    cases heq
    exact ⟨ht, hnew⟩
  | commit d ht hinv hnew =>
    obtain ⟨rfl, heq⟩ := List.append_inj' hxs rfl
    cases heq
    exact ⟨ht, hinv, hnew⟩
  | respond d ht hd =>
    obtain ⟨rfl, heq⟩ := List.append_inj' hxs rfl
    cases heq
    exact ⟨ht, d, hd, rfl, rfl⟩

theorem Timed.concat {m : Mark ι κ ρ} (h : Timed xs) (hm : m.After xs) : Timed (xs ++ [m]) := by
  cases m with
  | invoke i op => exact .invoke i op h hm
  | commit d => exact .commit d h hm.1 hm.2
  | respond i r =>
    obtain ⟨d, hd, rfl, rfl⟩ := hm
    exact .respond d h hd

theorem mem_committed {i : ι} : i ∈ committed xs ↔ ∃ d, .commit d ∈ xs ∧ d.id = i := by
  simp only [committed, List.mem_map, mem_commits]

/-- The number of the operation. -/
def Mark.id : Mark ι κ ρ → ι
  | .invoke i _ | .respond i _ => i
  | .commit d => d.id

theorem committed_concat {i : ι} {m : Mark ι κ ρ} (h : i ∈ committed (xs ++ [m])) :
    i ∈ committed xs ∨ ∃ d, m = .commit d ∧ d.id = i := by
  obtain ⟨d, hd, hid⟩ := mem_committed.mp h
  rcases List.mem_append.mp hd with hd | hd
  · exact Or.inl (mem_committed.mpr ⟨d, hd, hid⟩)
  · exact Or.inr ⟨d, (List.mem_singleton.mp hd).symm, hid⟩

theorem Timed.invoke_unique {i : ι} {op op' : κ} (h : Timed xs) (ho : .invoke i op ∈ xs)
    (ho' : .invoke i op' ∈ xs) : op = op' := by
  induction h with
  | nil => cases ho
  | invoke j opj _ hnew ih =>
    rcases List.mem_append.mp ho with hin | hlast <;>
      rcases List.mem_append.mp ho' with hin' | hlast'
    · exact ih hin hin'
    · cases List.mem_singleton.mp hlast'
      exact absurd hin (hnew op)
    · cases List.mem_singleton.mp hlast
      exact absurd hin' (hnew op')
    · cases List.mem_singleton.mp hlast
      cases List.mem_singleton.mp hlast'
      rfl
  | commit | respond => simp_all

theorem Mark.After.map {I K R : Type*} {f : ι → I} {g : κ → K} {h : ρ → R}
    {all : List (Mark I K R)} {m : Mark ι κ ρ} (hm : m.After xs)
    (hin : ∀ x ∈ xs, x.map f g h ∈ all)
    (hinvoke : ∀ i op, .invoke (f i) op ∈ all → ∃ op', .invoke i op' ∈ xs)
    (hcommit : ∀ i, f i ∈ committed all → i ∈ committed xs) : (m.map f g h).After all := by
  cases m with
  | invoke i op =>
    intro op' hmem
    obtain ⟨op, hop⟩ := hinvoke i op' hmem
    exact hm op hop
  | commit d => exact ⟨hin _ hm.1, fun hc => hm.2 (hcommit _ hc)⟩
  | respond i r =>
    obtain ⟨d, hd, rfl, rfl⟩ := hm
    exact ⟨_, hin _ hd, rfl, rfl⟩

theorem Merged.after_left (h : Merged xs ys zs) {m : Mark ι κ ρ} (hm : m.After xs) :
    m.left.After zs := by
  refine hm.map (fun x hx => h.mem.mpr (Or.inl ⟨x, hx, rfl⟩)) ?_ ?_
  · intro i op hmem
    obtain ⟨x, hx, heq⟩ | ⟨y, -, heq⟩ := h.mem.mp hmem
    · cases x <;> cases heq
      exact ⟨_, hx⟩
    · cases y <;> cases heq
  · intro i hi
    obtain ⟨d, hd, hid⟩ := mem_committed.mp hi
    obtain ⟨x, hx, heq⟩ | ⟨y, -, heq⟩ := h.mem.mp hd
    · cases x <;> cases heq
      cases hid
      exact mem_committed.mpr ⟨_, hx, rfl⟩
    · cases y <;> cases heq
      cases hid

theorem Merged.after_right (h : Merged xs ys zs) {m : Mark ι' κ' ρ'} (hm : m.After ys) :
    m.right.After zs := by
  refine hm.map (fun y hy => h.mem.mpr (Or.inr ⟨y, hy, rfl⟩)) ?_ ?_
  · intro i op hmem
    obtain ⟨x, -, heq⟩ | ⟨y, hy, heq⟩ := h.mem.mp hmem
    · cases x <;> cases heq
    · cases y <;> cases heq
      exact ⟨_, hy⟩
  · intro i hi
    obtain ⟨d, hd, hid⟩ := mem_committed.mp hi
    obtain ⟨x, -, heq⟩ | ⟨y, hy, heq⟩ := h.mem.mp hd
    · cases x <;> cases heq
      cases hid
    · cases y <;> cases heq
      cases hid
      exact mem_committed.mpr ⟨_, hy, rfl⟩

/-- The merge of two timed histories is timed. -/
theorem Merged.timed (h : Merged xs ys zs) (hxs : Timed xs) (hys : Timed ys) : Timed zs := by
  induction h with
  | nil => exact .nil
  | left m h ih =>
    obtain ⟨hxs, hm⟩ := hxs.of_concat rfl
    exact (ih hxs hys).concat (h.after_left hm)
  | right m h ih =>
    obtain ⟨hys, hm⟩ := hys.of_concat rfl
    exact (ih hxs hys).concat (h.after_right hm)

theorem commits_lefts (zs : List (Mark (ι ⊕ ι') (κ ⊕ κ') (ρ ⊕ ρ'))) (more : List (Mark ι κ ρ)) :
    commits (zs ++ more.map Mark.left) = commits zs ++ (commits more).map Done.left := by
  induction more using List.reverseRecOn with
  | nil => simp [commits]
  | append_singleton more m ih =>
    rw [List.map_append, ← List.append_assoc, List.map_singleton, commits_concat, ih,
      commits_concat, List.map_append, List.append_assoc]
    cases m <;> rfl

end Lib.Linear
