import TinyLord.Ids
import TinyLord.Query.Meaning

/-!
# The two gates for paths

What a client writes as a path stands in the text of SQL. A JSON path gets there as it is, and a
field is turned into one. Each gate lets through just the texts of its grammar.
-/

namespace TinyLord

/-! ## The grammars -/

/-- `[A-Za-z0-9_]+` -/
def Ident (name : List Char) : Prop := name ≠ [] ∧ ∀ c ∈ name, isFieldChar c = true

/-- `[0-9]+` -/
def Digits (digits : List Char) : Prop := digits ≠ [] ∧ ∀ c ∈ digits, c.isDigit = true

inductive Segment : List Char → Prop
  | ident {name : List Char} (h : Ident name) : Segment ('.' :: name)
  | index {digits : List Char} (h : Digits digits) : Segment ('[' :: (digits ++ [']']))

def Segments (cs : List Char) : Prop :=
  ∃ segs : List (List Char), cs = segs.flatten ∧ ∀ seg ∈ segs, Segment seg

/-- `$` and any number of segments. -/
def JsonPath (path : String) : Prop := ∃ cs, path.toList = '$' :: cs ∧ Segments cs

/-- Names with single dots between them. -/
def FieldPath (field : String) : Prop :=
  ∃ names : List (List Char), names ≠ [] ∧ (∀ name ∈ names, Ident name) ∧
    field.toList = ['.'].intercalate names

/-! ## The scan -/

/-- What may be left of a path at a place of the scan. -/
def PathState.Left : PathState → List Char → Prop
  | .segment, cs => Segments cs
  | .ident saw, cs => ∃ name rest, cs = name ++ rest ∧ (∀ c ∈ name, isFieldChar c = true) ∧
      (saw = true ∨ name ≠ []) ∧ Segments rest
  | .index saw, cs => ∃ digits rest, cs = digits ++ ']' :: rest ∧
      (∀ c ∈ digits, c.isDigit = true) ∧ (saw = true ∨ digits ≠ []) ∧ Segments rest

variable {c : Char} {cs rest : List Char} {saw : Bool} {st : PathState} {path field : String}

theorem segments_nil : Segments [] := ⟨[], rfl, nofun⟩

theorem Segment.append {seg : List Char} (h : Segment seg) (hrest : Segments rest) :
    Segments (seg ++ rest) := by
  obtain ⟨segs, rfl, hsegs⟩ := hrest
  exact ⟨seg :: segs, List.flatten_cons.symm, List.forall_mem_cons.mpr ⟨h, hsegs⟩⟩

theorem segmentStart_cases (h : segmentStart c = some st) :
    (c = '.' ∧ st = .ident false) ∨ (c = '[' ∧ st = .index false) := by
  unfold segmentStart at h
  split_ifs at h with hdot hbracket
  · exact Or.inl ⟨hdot, (Option.some.inj h).symm⟩
  · exact Or.inr ⟨hbracket, (Option.some.inj h).symm⟩

theorem segments_cons : Segments (c :: cs) ↔ ∃ st, segmentStart c = some st ∧ st.Left cs := by
  constructor
  · rintro ⟨segs, heq, hsegs⟩
    cases segs with
    | nil => cases heq
    | cons seg segs =>
      obtain ⟨hseg, hrest⟩ := List.forall_mem_cons.mp hsegs
      cases hseg with
      | ident hname =>
        rw [List.flatten_cons, List.cons_append, List.cons.injEq] at heq
        obtain ⟨rfl, rfl⟩ := heq
        exact ⟨.ident false, rfl, _, _, rfl, hname.2, Or.inr hname.1, segs, rfl, hrest⟩
      | index hdigits =>
        rw [List.flatten_cons, List.cons_append, List.cons.injEq, List.append_assoc,
          List.singleton_append] at heq
        obtain ⟨rfl, rfl⟩ := heq
        exact ⟨.index false, rfl, _, _, rfl, hdigits.2, Or.inr hdigits.1, segs, rfl, hrest⟩
  · rintro ⟨st, hstart, hleft⟩
    obtain ⟨rfl, rfl⟩ | ⟨rfl, rfl⟩ := segmentStart_cases hstart
    · obtain ⟨name, rest, rfl, hname, hsaw, hrest⟩ := hleft
      exact (Segment.ident ⟨hsaw.resolve_left nofun, hname⟩).append hrest
    · obtain ⟨digits, rest, rfl, hdigits, hsaw, hrest⟩ := hleft
      have hseg := (Segment.index ⟨hsaw.resolve_left nofun, hdigits⟩).append hrest
      rw [List.cons_append, List.append_assoc] at hseg
      exact hseg

theorem left_ident_nil : (PathState.ident saw).Left [] ↔ saw = true := by
  constructor
  · rintro ⟨name, rest, heq, -, hsaw, -⟩
    obtain ⟨rfl, -⟩ := List.append_eq_nil_iff.mp heq.symm
    exact hsaw.resolve_right (fun h => h rfl)
  · intro h
    exact ⟨[], [], rfl, nofun, Or.inl h, segments_nil⟩

theorem not_segments_fieldChar (hc : isFieldChar c = true) : ¬Segments (c :: cs) := by
  rw [segments_cons]
  rintro ⟨st, hstart, -⟩
  obtain ⟨rfl, -⟩ | ⟨rfl, -⟩ := segmentStart_cases hstart <;> contradiction

theorem left_ident_cons : (PathState.ident saw).Left (c :: cs) ↔
    if isFieldChar c = true then (PathState.ident true).Left cs
    else saw = true ∧ Segments (c :: cs) := by
  split
  · next hc =>
    constructor
    · rintro ⟨name, rest, heq, hname, -, hrest⟩
      cases name with
      | nil =>
        rw [List.nil_append] at heq
        exact absurd (heq ▸ hrest) (not_segments_fieldChar hc)
      | cons d name =>
        cases heq
        exact ⟨name, rest, rfl, fun x hx => hname x (List.mem_cons_of_mem _ hx), Or.inl rfl, hrest⟩
    · rintro ⟨name, rest, rfl, hname, -, hrest⟩
      exact ⟨c :: name, rest, rfl, List.forall_mem_cons.mpr ⟨hc, hname⟩,
        Or.inr (List.cons_ne_nil _ _), hrest⟩
  · next hc =>
    constructor
    · rintro ⟨name, rest, heq, hname, hsaw, hrest⟩
      cases name with
      | nil =>
        rw [List.nil_append] at heq
        exact ⟨hsaw.resolve_right (fun h => h rfl), heq ▸ hrest⟩
      | cons d name =>
        cases heq
        exact absurd (hname c List.mem_cons_self) hc
    · rintro ⟨hsaw, hrest⟩
      exact ⟨[], c :: cs, rfl, nofun, Or.inl hsaw, hrest⟩

theorem not_left_index_nil : ¬(PathState.index saw).Left [] := by
  rintro ⟨digits, rest, heq, -⟩
  exact absurd heq.symm (by simp)

theorem left_index_cons : (PathState.index saw).Left (c :: cs) ↔
    if c.isDigit = true then (PathState.index true).Left cs
    else c = ']' ∧ saw = true ∧ Segments cs := by
  split
  · next hc =>
    constructor
    · rintro ⟨digits, rest, heq, hdigits, -, hrest⟩
      cases digits with
      | nil =>
        cases heq
        exact absurd hc (by decide)
      | cons d digits =>
        cases heq
        exact ⟨digits, rest, rfl, fun x hx => hdigits x (List.mem_cons_of_mem _ hx), Or.inl rfl,
          hrest⟩
    · rintro ⟨digits, rest, rfl, hdigits, -, hrest⟩
      exact ⟨c :: digits, rest, rfl, List.forall_mem_cons.mpr ⟨hc, hdigits⟩,
        Or.inr (List.cons_ne_nil _ _), hrest⟩
  · next hc =>
    constructor
    · rintro ⟨digits, rest, heq, hdigits, hsaw, hrest⟩
      cases digits with
      | nil =>
        cases heq
        exact ⟨rfl, hsaw.resolve_right (fun h => h rfl), hrest⟩
      | cons d digits =>
        cases heq
        exact absurd (hdigits c List.mem_cons_self) hc
    · rintro ⟨rfl, hsaw, hrest⟩
      exact ⟨[], cs, rfl, nofun, Or.inl hsaw, hrest⟩

/-- The scan goes on, from each of its places, just as long as the grammar does. -/
theorem validSegments_iff (st : PathState) (cs : List Char) :
    validSegments st cs = true ↔ st.Left cs := by
  induction cs generalizing st with
  | nil =>
    cases st with
    | segment => exact iff_of_true rfl segments_nil
    | ident saw => exact left_ident_nil.symm
    | index saw => exact iff_of_false Bool.false_ne_true not_left_index_nil
  | cons c cs ih =>
    have hstart : validSegments .segment (c :: cs) = true ↔ Segments (c :: cs) := by
      rw [segments_cons, validSegments]
      cases segmentStart c with
      | none => simp
      | some st => simp [ih]
    cases st with
    | segment => exact hstart
    | ident saw =>
      rw [left_ident_cons, validSegments, ← isFieldChar]
      split
      · exact ih _
      · rw [← hstart, validSegments]
        cases segmentStart c <;> simp
    | index saw =>
      rw [left_index_cons, validSegments]
      split
      · exact ih _
      · split
        · next hc => simp [hc, ih, PathState.Left]
        · next hc => simp [hc]

theorem validJsonPath_iff (path : String) : validJsonPath path = true ↔ JsonPath path := by
  unfold validJsonPath JsonPath
  split
  · next rest hpath =>
    rw [Bool.or_eq_true, validSegments_iff, List.isEmpty_iff, hpath]
    constructor
    · rintro (rfl | hrest)
      · exact ⟨[], rfl, segments_nil⟩
      · exact ⟨rest, rfl, hrest⟩
    · rintro ⟨cs, heq, hcs⟩
      cases heq
      exact Or.inr hcs
  · next hpath =>
    refine iff_of_false Bool.false_ne_true ?_
    rintro ⟨cs, heq, -⟩
    exact hpath cs heq

/-! ## Fields -/

theorem segmentOk_iff {seg : String} : segmentOk seg = true ↔ Ident seg.toList := by
  rw [segmentOk, Bool.and_eq_true, Bool.not_eq_true', List.all_eq_true, Ident, Ne,
    String.toList_eq_nil_iff, ← Bool.not_eq_true, String.isEmpty_iff]

theorem fieldToJsonPath_isOk : (∃ path, fieldToJsonPath field = .ok path) ↔
    field ≠ "" ∧ ∀ name ∈ field.toList.splitOn '.', Ident name := by
  have hsegments : (∀ seg ∈ segments field, segmentOk seg = true) ↔
      ∀ name ∈ field.toList.splitOn '.', Ident name := by
    simp [segments, segmentOk_iff]
  rw [← hsegments, fieldToJsonPath]
  split
  · next hempty =>
    refine iff_of_false ?_ (fun h => h.1 (String.isEmpty_iff.mp hempty))
    rintro ⟨path, h⟩
    cases h
  · next hempty =>
    rw [String.isEmpty_iff] at hempty
    constructor
    · rintro ⟨path, h⟩
      exact ⟨hempty, appendSegments_segmentOk h⟩
    · rintro ⟨-, h⟩
      exact ⟨_, appendSegments_of_ok "$" (List.all_eq_true.mpr h)⟩

theorem fieldPath_iff : FieldPath field ↔
    field ≠ "" ∧ ∀ name ∈ field.toList.splitOn '.', Ident name := by
  constructor
  · rintro ⟨names, hne, hnames, heq⟩
    have hdots : ∀ name ∈ names, '.' ∉ name := by
      intro name hname hdot
      exact absurd ((hnames name hname).2 '.' hdot) (by decide)
    refine ⟨?_, ?_⟩
    · rintro rfl
      obtain ⟨name, names, rfl⟩ := List.exists_cons_of_ne_nil hne
      rw [intercalate_dots] at heq
      exact (hnames name List.mem_cons_self).1 (List.append_eq_nil_iff.mp heq.symm).1
    · rw [heq, List.splitOn_intercalate '.' hdots hne]
      exact hnames
  · rintro ⟨-, h⟩
    exact ⟨_, List.splitOn_ne_nil _ _, h, (List.intercalate_splitOn '.').symm⟩

theorem jsonPath_of_field {path : String} (h : fieldToJsonPath field = .ok path) :
    JsonPath path := by
  have hnames := (fieldToJsonPath_isOk.mp ⟨path, h⟩).2
  obtain ⟨rfl, -⟩ := fieldToJsonPath_dotted h
  have hjoin : ['.'].intercalate (field.toList.splitOn '.') = field.toList :=
    List.intercalate_splitOn '.'
  refine ⟨'.' :: field.toList, by rw [dotted, String.toList_append]; rfl,
    (field.toList.splitOn '.').map ('.' :: ·), ?_, ?_⟩
  · obtain ⟨name, names, hsplit⟩ := List.exists_cons_of_ne_nil (List.splitOn_ne_nil '.' field.toList)
    rw [hsplit, intercalate_dots] at hjoin
    rw [hsplit, ← List.flatMap_def, List.flatMap_cons, ← hjoin, List.cons_append]
  · intro seg hseg
    obtain ⟨name, hname, rfl⟩ := List.mem_map.mp hseg
    exact .ident (hnames name hname)

theorem JsonPath.no_quote (h : JsonPath path) : '\'' ∉ path.toList ∧ '"' ∉ path.toList := by
  have hsegment : ∀ seg, Segment seg → '\'' ∉ seg ∧ '"' ∉ seg := by
    intro seg hseg
    cases hseg with
    | ident hname =>
      refine ⟨fun h => ?_, fun h => ?_⟩ <;>
        exact absurd (hname.2 _ ((List.mem_cons.mp h).resolve_left (by decide))) (by decide)
    | index hdigits =>
      simp only [List.mem_cons, List.mem_append, List.not_mem_nil, or_false]
      refine ⟨?_, ?_⟩ <;> rintro (h | h | h) <;>
        first | exact absurd h (by decide) | exact absurd (hdigits.2 _ h) (by decide)
  obtain ⟨cs, hpath, segs, rfl, hsegs⟩ := h
  rw [hpath]
  refine ⟨?_, ?_⟩
  · rintro (_ | ⟨_, h⟩)
    obtain ⟨seg, hseg, hc⟩ := List.mem_flatten.mp h
    exact (hsegment seg (hsegs seg hseg)).1 hc
  · rintro (_ | ⟨_, h⟩)
    obtain ⟨seg, hseg, hc⟩ := List.mem_flatten.mp h
    exact (hsegment seg (hsegs seg hseg)).2 hc

/-- Each gate accepts its grammar and nothing else. What the second one makes of a field passes the
first, has no quotes, and is the path of no other field. -/
theorem path_gates :
    (∀ path, validJsonPath path = true ↔ JsonPath path) ∧
    (∀ field, (∃ path, fieldToJsonPath field = .ok path) ↔ FieldPath field) ∧
    ∀ field path, fieldToJsonPath field = .ok path →
      validJsonPath path = true ∧ '\'' ∉ path.toList ∧ '"' ∉ path.toList ∧
        ∀ field', fieldToJsonPath field' = .ok path → field' = field := by
  refine ⟨validJsonPath_iff, fun field => fieldToJsonPath_isOk.trans fieldPath_iff.symm, ?_⟩
  intro field path h
  have hpath := jsonPath_of_field h
  refine ⟨(validJsonPath_iff path).mpr hpath, hpath.no_quote.1, hpath.no_quote.2, ?_⟩
  intro field' h'
  have heq : dotted field' = dotted field := by
    rw [← (fieldToJsonPath_dotted h).1, (fieldToJsonPath_dotted h').1]
  apply String.toList_injective
  have hlist := congrArg String.toList heq
  rw [dotted, dotted, String.toList_append, String.toList_append] at hlist
  exact List.append_cancel_left hlist

theorem path_gates_user :
    validJsonPath "$.user.age" = true ∧
      ∀ field, fieldToJsonPath field = .ok "$.user.age" → field = "user.age" := by
  obtain ⟨hvalid, -, -, honly⟩ := path_gates.2.2 "user.age" "$.user.age" (by decide)
  exact ⟨hvalid, honly⟩

end TinyLord
