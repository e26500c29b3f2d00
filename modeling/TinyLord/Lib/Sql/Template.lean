import TinyLord.Lib.Sql.Lexer

/-!
# Templates with quoted holes

A text without a quote in it, put between two quotes of a template, stays one token: it changes no
other token and adds none.
-/

namespace Lib.Sql

variable {ν : Type*} {a b : List Char} {m m' : Mode} {c : Char}

/-! ## Tokens but for their texts -/

def Tok.blank : Tok ν → Tok ν
  | .text _ => .text ""
  | t => t

def Mode.blank : Mode → Mode
  | .text _ => .text []
  | .closed _ => .closed []
  | m => m

def Mode.inText : Mode → Bool
  | .text _ => true
  | _ => false

/-- What the lexer makes of a text, but for what is in quotes. -/
def blanked (r : Option (List (Tok ν) × Mode)) : Option (List (Tok ν) × Mode) :=
  r.map fun r => (r.1.map Tok.blank, r.2.blank)

theorem blanked_endBefore {t t' : Tok ν} (h : t.blank = t'.blank) :
    blanked (endBefore t c) = blanked (endBefore t' c) := by
  unfold endBefore blanked
  cases begin (ν := ν) c with
  | none => rfl
  | some r => simp [h]

theorem blanked_step (h : m.blank = m'.blank) :
    blanked (stepMode m c : Option (List (Tok ν) × Mode)) = blanked (stepMode m' c) := by
  cases m <;> cases m' <;> cases h
  all_goals try rfl
  · simp only [stepMode]
    split <;> rfl
  · simp only [stepMode]
    split
    · rfl
    · exact blanked_endBefore rfl

theorem blanked_prepend (ts : List (Tok ν)) (o : Option (List (Tok ν) × Mode)) :
    blanked (o.bind fun q => some (ts ++ q.1, q.2)) =
      (blanked o).map fun q => (ts.map Tok.blank ++ q.1, q.2) := by
  cases o with
  | none => rfl
  | some q => rw [Option.bind_some, blanked, Option.map_some, List.map_append]; rfl

theorem blanked_run (h : m.blank = m'.blank) :
    blanked (run m a : Option (List (Tok ν) × Mode)) = blanked (run m' a) := by
  induction a generalizing m m' with
  | nil => simp [run, blanked, h]
  | cons c a ih =>
    have hstep : blanked (stepMode m c : Option (List (Tok ν) × Mode)) = blanked (stepMode m' c) :=
      blanked_step h
    simp only [run, Option.bind_eq_bind]
    cases hm : (stepMode m c : Option (List (Tok ν) × Mode)) with
    | none =>
      rw [hm] at hstep
      cases hm' : (stepMode m' c : Option (List (Tok ν) × Mode)) with
      | none => rfl
      | some r =>
        rw [hm'] at hstep
        contradiction
    | some r =>
      rw [hm] at hstep
      cases hm' : (stepMode m' c : Option (List (Tok ν) × Mode)) with
      | none =>
        rw [hm'] at hstep
        contradiction
      | some r' =>
        rw [hm'] at hstep
        simp only [blanked, Option.map_some, Option.some.injEq, Prod.mk.injEq] at hstep
        have hrest := ih hstep.2
        rw [Option.bind_some, Option.bind_some]
        refine (blanked_prepend r.1 _).trans ?_
        rw [hrest, hstep.1]
        exact (blanked_prepend r'.1 _).symm

theorem run_append_bind : (run m (a ++ b) : Option (List (Tok ν) × Mode)) =
    (run m a).bind fun r => (run r.2 b).map fun q => (r.1 ++ q.1, q.2) := by
  cases ha : (run m a : Option (List (Tok ν) × Mode)) with
  | some r => rw [run_append ha, Option.bind_some]
  | none =>
    induction a generalizing m with
    | nil => contradiction
    | cons c a ih =>
      simp only [List.cons_append, run, Option.bind_eq_bind] at ha ⊢
      cases hstep : (stepMode m c : Option (List (Tok ν) × Mode)) with
      | none => rfl
      | some r =>
        rw [hstep, Option.bind_some] at ha
        cases hr : (run r.2 a : Option (List (Tok ν) × Mode)) with
        | none => rw [Option.bind_some, ih hr, Option.bind_none, Option.bind_none]
        | some q =>
          rw [hr] at ha
          contradiction

theorem blanked_append : blanked (run m (a ++ b) : Option (List (Tok ν) × Mode)) =
    (blanked (run m a)).bind fun r => (blanked (run r.2 b)).map fun q => (r.1 ++ q.1, q.2) := by
  rw [run_append_bind]
  cases (run m a : Option (List (Tok ν) × Mode)) with
  | none => rfl
  | some r =>
    have hmode : blanked (run r.2.blank b : Option (List (Tok ν) × Mode)) = blanked (run r.2 b) :=
      blanked_run (by cases r.2 <;> rfl)
    simp only [blanked, Option.bind_some, Option.map_some] at hmode ⊢
    rw [hmode]
    cases (run r.2 b : Option (List (Tok ν) × Mode)) with
    | none => rfl
    | some q => simp

/-! ## Outside of a text -/

theorem ite_outside {p : Prop} [Decidable p] {x y : Option (List (Tok ν) × Mode)}
    (hx : ∀ r ∈ x, r.2.inText = false) (hy : ∀ r ∈ y, r.2.inText = false) :
    ∀ r ∈ if p then x else y, r.2.inText = false := by
  split
  · exact hx
  · exact hy

theorem begin_outside (hc : c ≠ '\'') :
    ∀ r ∈ (begin c : Option (List (Tok ν) × Mode)), r.2.inText = false := by
  have hone : ∀ (ts : List (Tok ν)) (m : Mode), m.inText = false →
      ∀ r ∈ some (ts, m), r.2.inText = false := by
    rintro ts m hm r ⟨⟩
    exact hm
  unfold begin
  rw [if_neg hc]
  iterate 10 refine ite_outside (hone _ _ rfl) ?_
  nofun

theorem step_outside {r : List (Tok ν) × Mode} (hc : c ≠ '\'') (hm : m.inText = false)
    (h : stepMode m c = some r) : r.2.inText = false := by
  have hend : ∀ t : Tok ν, endBefore t c = some r → r.2.inText = false := by
    intro t ht
    obtain ⟨⟨us, m'⟩, hq, rfl⟩ := Option.map_eq_some_iff.mp ht
    exact begin_outside hc (us, m') hq
  cases m with
  | start => exact begin_outside hc r h
  | text read => contradiction
  | word read =>
    simp only [stepMode] at h
    split_ifs at h
    · cases h; rfl
    · exact hend _ h
  | number n =>
    simp only [stepMode] at h
    split_ifs at h
    · cases h; rfl
    · exact hend _ h
  | closed read =>
    rw [stepMode, if_neg hc] at h
    exact hend _ h
  | lt =>
    simp only [stepMode] at h
    split_ifs at h
    · cases h; rfl
    · exact hend _ h
  | gt =>
    simp only [stepMode] at h
    split_ifs at h
    · cases h; rfl
    · exact hend _ h

theorem run_outside {r : List (Tok ν) × Mode} (ha : ∀ c ∈ a, c ≠ '\'') (hm : m.inText = false)
    (h : run m a = some r) : r.2.inText = false := by
  induction a generalizing m r with
  | nil =>
    cases h
    exact hm
  | cons c a ih =>
    rw [List.forall_mem_cons] at ha
    simp only [run, Option.bind_eq_bind, Option.bind_eq_some_iff] at h
    obtain ⟨q, hq, ⟨us, m'⟩, hu, hr⟩ := h
    cases hr
    exact ih (r := (us, m')) ha.2 (step_outside ha.1 hm hq) hu

/-! ## Holes that are filled -/

/-- The second text is a template. The first has texts without quotes between the quotes. -/
inductive Fills : List Char → List Char → Prop
  | fixed {t : List Char} (h : ∀ c ∈ t, c ≠ '\'') : Fills t t
  | quoted {t : List Char} (h : ∀ c ∈ t, c ≠ '\'') : Fills ('\'' :: t ++ ['\'']) ['\'', '\'']
  | append {t t' u u' : List Char} : Fills t t' → Fills u u' → Fills (t ++ u) (t' ++ u')

theorem Fills.unquoted (h : '\'' ∉ a) : Fills a a := .fixed (List.forall_mem_ne'.mpr h)

theorem step_quote (hm : m.inText = false) :
    ∃ ts read, (stepMode m '\'' : Option (List (Tok ν) × Mode)) = some (ts, .text read) := by
  cases m with
  | text read => contradiction
  | _ => exact ⟨_, _, rfl⟩

theorem run_quoted (m : Mode) (hm : m.inText = false) :
    ∃ (ts : List (Tok ν)) (read : List Char), ∀ s : List Char, (∀ c ∈ s, c ≠ '\'') →
      run m ('\'' :: s ++ ['\'']) = some (ts, .closed (read ++ s)) := by
  obtain ⟨ts, read, hstep⟩ := step_quote (ν := ν) hm
  refine ⟨ts, read, ?_⟩
  intro s hs
  have htext : (run (.text read) (s ++ ['\'']) : Option (List (Tok ν) × Mode)) =
      some ([], .closed (read ++ s)) := by
    rw [run_append (run_text hs)]
    rfl
  simp [run, hstep, htext]

theorem Fills.run (h : Fills a b) (m : Mode) (hm : m.inText = false) :
    blanked (run m a : Option (List (Tok ν) × Mode)) = blanked (run m b) ∧
      ∀ r : List (Tok ν) × Mode, Sql.run m a = some r → r.2.inText = false := by
  induction h generalizing m with
  | fixed h => exact ⟨rfl, fun r hr => run_outside h hm hr⟩
  | quoted h =>
    obtain ⟨ts, read, hrun⟩ := run_quoted (ν := ν) m hm
    have hempty := hrun [] nofun
    rw [hrun _ h]
    refine ⟨?_, ?_⟩
    · rw [List.cons_append, List.nil_append] at hempty
      rw [hempty]
      rfl
    · rintro r ⟨⟩
      rfl
  | @append t t' u u' _ _ iht ihu =>
    obtain ⟨hblank, hout⟩ := iht m hm
    refine ⟨?_, ?_⟩
    · rw [blanked_append, blanked_append, ← hblank]
      cases hrun : (Sql.run m t : Option (List (Tok ν) × Mode)) with
      | none => rfl
      | some r =>
        have hmode : r.2.blank.inText = false := by
          have hr := hout r hrun
          cases hmode : r.2 <;> rw [hmode] at hr <;> first | rfl | contradiction
        simp only [blanked, Option.map_some, Option.bind_some]
        have hu := (ihu r.2.blank hmode).1
        unfold blanked at hu
        rw [hu]
    · intro r hr
      rw [run_append_bind, Option.bind_eq_some_iff] at hr
      obtain ⟨q, hq, hrest⟩ := hr
      obtain ⟨p, hp, rfl⟩ := Option.map_eq_some_iff.mp hrest
      exact (ihu q.2 (hout q hq)).2 p hp

theorem last_blank (m : Mode) (ts : List (Tok ν)) :
    m.last.map (fun us => ts.map Tok.blank ++ us.map Tok.blank) =
      m.blank.last.map fun us => ts.map Tok.blank ++ us.map Tok.blank := by
  cases m <;> rfl

theorem lex_blank (text : String) : (lex text : Option (List (Tok ν))).map (List.map Tok.blank) =
    (blanked (run .start text.toList)).bind fun r =>
      r.2.last.map fun us => r.1 ++ us.map Tok.blank := by
  unfold lex
  simp only [Option.bind_eq_bind]
  cases (run .start text.toList : Option (List (Tok ν) × Mode)) with
  | none => rfl
  | some r =>
    simp only [blanked, Option.map_some, Option.bind_some, ← last_blank]
    cases (r.2.last : Option (List (Tok ν))) with
    | none => rfl
    | some us => simp

/-- What fills a template changes no token but the text it is in. -/
theorem lex_fills {text template : String} (h : Fills text.toList template.toList) :
    (lex text : Option (List (Tok ν))).map (List.map Tok.blank) =
      (lex template).map (List.map Tok.blank) := by
  rw [lex_blank, lex_blank, (h.run .start rfl).1]

end Lib.Sql
