import TinyLord.Lib.Sql.Clause
import TinyLord.Lib.Sql.Select

/-!
# ORDER BY put together from terms

The text of a list of terms is read back as that list, and the order that it stands for is total.
-/

namespace Lib.Sql

variable {ν ρ : Type*}

/-! ## The text -/

def directionTok (descending : Bool) : Tok ν := if descending then .desc else .asc

/-- A term with the text that it is read from. -/
structure OrderClause (ν : Type*) where
  text : String
  term : OrderTerm ν
  toks : List (Tok ν)
  lexes : Lexes text.toList (toks ++ [directionTok term.descending])
  parses : Parses .disjunction toks term.expr

theorem direction_tok (descending : Bool) (rest : List (Tok ν)) :
    direction (directionTok descending :: rest) = (descending, rest) := by
  cases descending <;> rfl

theorem stops_direction {descending : Bool} {rest : List (Tok ν)} :
    Stops .disjunction (directionTok descending :: rest) :=
  stops_cons (by cases descending <;> exact Nat.lt_succ_self _)

def OrderClause.all (d : OrderClause ν) : List (Tok ν) := d.toks ++ [directionTok d.term.descending]

theorem lexes_foldl (ds : List (OrderClause ν)) {text : String} {ts : List (Tok ν)}
    (h : Lexes text.toList ts) :
    Lexes (ds.foldl (fun text d => text ++ ", " ++ d.text) text).toList
      (ts ++ ds.flatMap fun d => .comma :: d.all) := by
  induction ds generalizing text ts with
  | nil => simpa using h
  | cons d ds ih =>
    have hsep : run (ν := ν) .start [',', ' '] = some ([.comma], .start) := rfl
    have hd : Lexes (text ++ ", " ++ d.text).toList (ts ++ .comma :: d.all) := by
      have := h.append (Lexes.prepend hsep d.lexes) rfl
      simpa [OrderClause.all] using this
    simpa using ih hd

theorem orderTerms_commas (ds : List (OrderClause ν)) (hne : ds ≠ []) {m : Nat}
    (hm : ds.length ≤ m) :
    orderTerms m (commas (ds.map OrderClause.all)) = some (ds.map (·.term)) := by
  induction ds generalizing m with
  | nil => exact absurd rfl hne
  | cons d ds ih =>
    obtain ⟨m, rfl⟩ : ∃ m', m = m' + 1 := ⟨m - 1, by simp at hm; omega⟩
    have hterm : ∀ rest, expression ((d.all ++ rest).length + 1) (d.all ++ rest) =
        some (d.term.expr, directionTok d.term.descending :: rest) := by
      intro rest
      rw [OrderClause.all, List.append_assoc, List.singleton_append]
      have hlength : d.toks.length ≤
          (d.toks ++ directionTok d.term.descending :: rest).length := by
        rw [List.length_append]
        exact Nat.le_add_right _ _
      exact d.parses.expression _ (Nat.succ_le_succ hlength) stops_direction
    cases ds with
    | nil =>
      have hlast := hterm []
      rw [List.append_nil] at hlast
      simp [commas, orderTerms, hlast, direction_tok]
    | cons e ds =>
      have hrest := ih (List.cons_ne_nil _ _) (m := m) (by simpa using hm)
      have hsplit : commas ((d :: e :: ds).map OrderClause.all) =
          d.all ++ .comma :: commas ((e :: ds).map OrderClause.all) := by
        simp [commas]
      rw [hsplit, orderTerms, hterm]
      simp only [direction_tok]
      rw [hrest]
      rfl

theorem length_le_commas_all (ds : List (OrderClause ν)) :
    ds.length ≤ (commas (ds.map OrderClause.all)).length := by
  cases ds with
  | nil => exact Nat.le_refl 0
  | cons d ds =>
    have hflat : ds.length ≤ ((ds.map OrderClause.all).flatMap fun us => Tok.comma :: us).length := by
      induction ds with
      | nil => exact Nat.le_refl 0
      | cons e ds ih =>
        simp only [List.map_cons, List.flatMap_cons, List.length_append, List.length_cons]
        omega
    simp only [List.map_cons, commas, List.length_append, List.length_cons, OrderClause.all]
    omega

/-- The text of a list of terms is read back as the list. -/
theorem orderBy_intercalate (d : OrderClause ν) (ds : List (OrderClause ν)) :
    orderBy ("ORDER BY " ++ String.intercalate ", " ((d :: ds).map (·.text))) =
      some ((d :: ds).map (·.term)) := by
  have hjoin : String.intercalate ", " ((d :: ds).map (·.text)) =
      ds.foldl (fun text d => text ++ ", " ++ d.text) d.text := by
    rw [List.map_cons, intercalate_eq_foldl, List.foldl_map]
  have hopen : run (ν := ν) .start "ORDER BY ".toList = some ([.kwOrder, .kwBy], .start) := rfl
  have hlexes : Lexes ("ORDER BY " ++ String.intercalate ", " ((d :: ds).map (·.text))).toList
      (.kwOrder :: .kwBy :: commas ((d :: ds).map OrderClause.all)) := by
    rw [String.toList_append, hjoin]
    have := Lexes.prepend hopen (lexes_foldl ds d.lexes)
    simpa [commas, List.flatMap_map, OrderClause.all] using this
  rw [orderBy, hlexes.lex]
  exact orderTerms_commas (d :: ds) (List.cons_ne_nil _ _) (length_le_commas_all (d :: ds))

/-! ## The order of rows -/

variable {κ : Type*} [LinearOrder κ] {eng : Engine ν} {key : ν → κ} {t : OrderTerm ν}
  {ts : List (OrderTerm ν)} {a b c : Row ν}

/-- The term alone puts the first row before the second. -/
def OrderTerm.Precedes (eng : Engine ν) (key : ν → κ) (t : OrderTerm ν) (a b : Row ν) : Prop :=
  if t.descending then key (t.expr.eval eng b) < key (t.expr.eval eng a)
  else key (t.expr.eval eng a) < key (t.expr.eval eng b)

theorem rowLe_cons (hkey : ∀ x y, eng.order x y = compare (key x) (key y)) :
    rowLe eng (t :: ts) a b = true ↔ t.Precedes eng key a b ∨
      (key (t.expr.eval eng a) = key (t.expr.eval eng b) ∧ rowLe eng ts a b = true) := by
  rw [rowLe, hkey, OrderTerm.Precedes]
  rcases lt_trichotomy (key (t.expr.eval eng a)) (key (t.expr.eval eng b)) with h | h | h
  · rw [compare_lt_iff_lt.mpr h]
    cases t.descending <;> simp [h, h.ne, h.not_gt]
  · rw [compare_eq_iff_eq.mpr h]
    cases t.descending <;> simp [h]
  · rw [compare_gt_iff_gt.mpr h]
    cases t.descending <;> simp [h, h.ne', h.not_gt]

theorem OrderTerm.Precedes.trans (hab : t.Precedes eng key a b) (hbc : t.Precedes eng key b c) :
    t.Precedes eng key a c := by
  unfold OrderTerm.Precedes at hab hbc ⊢
  split at hab
  · next h =>
    rw [if_pos h] at hbc ⊢
    exact hbc.trans hab
  · next h =>
    rw [if_neg h] at hbc ⊢
    exact hab.trans hbc

theorem precedes_trichotomy (eng : Engine ν) (key : ν → κ) (t : OrderTerm ν) (a b : Row ν) :
    t.Precedes eng key a b ∨ key (t.expr.eval eng a) = key (t.expr.eval eng b) ∨
      t.Precedes eng key b a := by
  unfold OrderTerm.Precedes
  rcases lt_trichotomy (key (t.expr.eval eng a)) (key (t.expr.eval eng b)) with h | h | h
  · cases t.descending <;> simp [h]
  · exact Or.inr (Or.inl h)
  · cases t.descending <;> simp [h]

theorem precedes_congr_left (h : key (t.expr.eval eng a) = key (t.expr.eval eng b)) :
    t.Precedes eng key a c ↔ t.Precedes eng key b c := by
  rw [OrderTerm.Precedes, OrderTerm.Precedes, h]

theorem precedes_congr_right (h : key (t.expr.eval eng a) = key (t.expr.eval eng b)) :
    t.Precedes eng key c a ↔ t.Precedes eng key c b := by
  rw [OrderTerm.Precedes, OrderTerm.Precedes, h]

theorem rowLe_total (hkey : ∀ x y, eng.order x y = compare (key x) (key y))
    (ts : List (OrderTerm ν)) (a b : Row ν) :
    rowLe eng ts a b = true ∨ rowLe eng ts b a = true := by
  induction ts with
  | nil => exact Or.inl rfl
  | cons t ts ih =>
    rw [rowLe_cons hkey, rowLe_cons hkey]
    rcases precedes_trichotomy eng key t a b with h | h | h
    · exact Or.inl (Or.inl h)
    · exact ih.imp (fun hle => Or.inr ⟨h, hle⟩) (fun hle => Or.inr ⟨h.symm, hle⟩)
    · exact Or.inr (Or.inl h)

theorem rowLe_trans (hkey : ∀ x y, eng.order x y = compare (key x) (key y))
    (hab : rowLe eng ts a b = true) (hbc : rowLe eng ts b c = true) : rowLe eng ts a c = true := by
  induction ts with
  | nil => rfl
  | cons t ts ih =>
    rw [rowLe_cons hkey] at hab hbc ⊢
    rcases hab with hab | ⟨hxy, hab⟩
    · rcases hbc with hbc | ⟨hyz, -⟩
      · exact Or.inl (hab.trans hbc)
      · exact Or.inl ((precedes_congr_right hyz).mp hab)
    · rcases hbc with hbc | ⟨hyz, hbc⟩
      · exact Or.inl ((precedes_congr_left hxy).mpr hbc)
      · exact Or.inr ⟨hxy.trans hyz, ih hab hbc⟩

structure TotalPreorder (le : ρ → ρ → Bool) : Prop where
  total : ∀ a b, le a b || le b a
  trans : ∀ a b c, le a b → le b c → le a c

theorem rowLe_totalPreorder (hkey : ∀ x y, eng.order x y = compare (key x) (key y))
    (ts : List (OrderTerm ν)) (row : ρ → Row ν) :
    TotalPreorder fun a b => rowLe eng ts (row a) (row b) where
  total a b := Bool.or_eq_true _ _ ▸ rowLe_total hkey ts (row a) (row b)
  trans _ _ _ := rowLe_trans hkey

end Lib.Sql
